import Kasumi.OrdMap

/-! Append-only tables of chained rows. A row is stored under its identity and under its
ordinal, and names the digest of its predecessor; a reader selects a prefix of the ordinals
by a count and the digest of the last row. Rows beyond the prefix may already be stored and
are invisible until the prefix is advanced over them. -/
namespace ChainTable

open List

/-- How a row type is laid out: its identity, its ordinal, its own digest, its predecessor's,
the digest the first row starts from, and a check made on the last selected row. `noun` and
`point` name the rows and their identities in messages. -/
structure Layout (Row : Type) where
  noun : String
  point : String
  key : Row → String
  ordinal : Row → ℕ
  parent : Row → String
  digest : Row → String
  root : Row → String
  atHead : Row → Bool
  valid : String → Bool

structure Table (Row : Type) where
  rows : OrdMap String Row
  index : OrdMap ℕ (String × String)

def noRows {Row : Type} : Table Row := ⟨OrdMap.empty, OrdMap.empty⟩

variable {Row : Type} (L : Layout Row)

def ensure (condition : Bool) (message : String) : Except String Unit :=
  if condition then .ok () else .error message

def indexAt (t : Table Row) (count ordinal : ℕ) : Except String (String × String) := do
  ensure (0 < ordinal && ordinal ≤ count) (L.noun ++ " ordinal is outside selected generation")
  match t.index.get ordinal with
  | none => .error (L.noun ++ " ordinal missing")
  | some entry => do
    ensure (L.valid entry.1 && L.valid entry.2) ("invalid " ++ L.noun ++ " ordinal index")
    pure entry

def parentOf (t : Table Row) (count : ℕ) (row : Row) : Except String String :=
  if L.ordinal row = 1 then .ok (L.root row)
  else do
    let entry ← indexAt L t count (L.ordinal row - 1)
    pure entry.2

def checkRow (t : Table Row) (count : ℕ) (headDigest key : String) (row : Row) :
    Except String Unit := do
  ensure (L.key row = key && 0 < L.ordinal row) (L.noun ++ " point identity differs")
  ensure (!(L.ordinal row = count && !L.atHead row))
    (L.noun ++ " last applied position differs from selected head")
  let entry ← indexAt L t count (L.ordinal row)
  ensure (entry.1 = key && entry.2 = L.digest row)
    (L.noun ++ " row differs from ordinal commitment")
  let parent ← parentOf L t count row
  ensure (L.parent row = parent)
    (L.noun ++ if L.ordinal row = 1 then " initial root differs" else " parent root differs")
  let last ← indexAt L t count count
  ensure (last.2 = headDigest) (L.noun ++ " selected root differs")

def get (t : Table Row) (count : ℕ) (headDigest key : String) : Except String (Option Row) :=
  if L.valid key then
    match t.rows.get key with
    | none => .ok none
    | some row =>
      if L.ordinal row > count then .ok none
      else
        match checkRow L t count headDigest key row with
        | .ok _ => .ok (some row)
        | .error e => .error e
  else .error ("invalid " ++ L.point ++ " point identity")

/-- Store a row under its identity and its ordinal. A row stored earlier must be the same. -/
def stageRow [DecidableEq Row] (t : Table Row) (row : Row) : Except String (Table Row) :=
  match t.rows.get (L.key row), t.index.get (L.ordinal row) with
  | some old, some entry =>
    if old = row ∧ entry = (L.key row, L.digest row) then .ok t
    else .error ("future " ++ L.noun ++ " row differs from exact original command replay")
  | none, none =>
    .ok ⟨t.rows.insert (L.key row) row, t.index.insert (L.ordinal row) (L.key row, L.digest row)⟩
  | _, _ => .error ("partially published " ++ L.noun ++ " row/index")

def stageRows [DecidableEq Row] : Table Row → List Row → Except String (Table Row)
  | t, [] => .ok t
  | t, row :: rows =>
    match stageRow L t row with
    | .ok t => stageRows t rows
    | .error e => .error e

def lastDigest (root : String) (rows : List Row) : String := (rows.getLast?.map L.digest).getD root

/-- The table's selected prefix is `rows`: they carry the ordinals from one on, they are
linked from `root` and stored, every stored row is found under both of its keys, and the rows
outside the prefix lie beyond it. -/
structure Selected (root : String) (t : Table Row) (rows : List Row) : Prop where
  ordinal : ∀ (i : ℕ) (r : Row), rows[i]? = some r → L.ordinal r = i + 1
  linked : ∀ (i : ℕ) (r : Row), rows[i]? = some r → L.parent r = lastDigest L root (rows.take i)
  rooted : ∀ r ∈ rows, L.root r = root
  valid : ∀ r ∈ rows, L.valid (L.key r) = true ∧ L.valid (L.digest r) = true
  stored : ∀ r ∈ rows, t.rows.get (L.key r) = some r
  point : ∀ (k : String) (r : Row), t.rows.get k = some r →
    L.key r = k ∧ t.index.get (L.ordinal r) = some (k, L.digest r)
  beyond : ∀ (k : String) (r : Row), t.rows.get k = some r → r ∈ rows ∨ rows.length < L.ordinal r

variable {L}

theorem Selected.nil (root : String) : Selected L root (noRows : Table Row) [] where
  ordinal := by simp
  linked := by simp
  rooted := by simp
  valid := by simp
  stored := by simp
  point := by simp [noRows]
  beyond := by simp [noRows]

namespace Selected

variable {root : String} {t : Table Row} {rows : List Row}

section

variable (h : Selected L root t rows)

include h

theorem ordinal_le (hr : r ∈ rows) : 0 < L.ordinal r ∧ L.ordinal r ≤ rows.length := by
  obtain ⟨i, hi, rfl⟩ := getElem_of_mem hr
  rw [h.ordinal i _ (getElem?_eq_getElem hi)]
  omega

theorem at_ordinal (hn : n < rows.length) :
    t.index.get (n + 1) = some (L.key rows[n], L.digest rows[n]) := by
  have ho := h.ordinal n rows[n] (getElem?_eq_getElem hn)
  rw [← ho]
  exact (h.point _ _ (h.stored _ (getElem_mem hn))).2

theorem indexAt_ok (hn : n < rows.length) :
    indexAt L t rows.length (n + 1) = .ok (L.key rows[n], L.digest rows[n]) := by
  have hv := h.valid _ (getElem_mem hn)
  have hn' : n + 1 ≤ rows.length := hn
  unfold indexAt
  rw [h.at_ordinal hn]
  dsimp only
  rw [hv.1, hv.2, decide_eq_true hn', decide_eq_true (Nat.succ_pos n)]
  rfl

end

theorem lastDigest_take (n : ℕ) (hn : n < rows.length) :
    lastDigest L root (rows.take (n + 1)) = L.digest rows[n] := by
  unfold lastDigest
  rw [take_succ_eq_append_getElem hn, getLast?_append_cons]
  rfl

section

variable (h : Selected L root t rows)

include h

theorem parentOf_ok (hn : n < rows.length) :
    parentOf L t rows.length rows[n] = .ok (L.parent rows[n]) := by
  have hg : rows[n]? = some rows[n] := getElem?_eq_getElem hn
  unfold parentOf
  rw [h.ordinal n _ hg, h.linked n _ hg, h.rooted _ (getElem_mem hn)]
  cases n with
  | zero => rfl
  | succ n =>
    have hl : n < rows.length := by omega
    rw [if_neg (by omega), Nat.add_sub_cancel, h.indexAt_ok hl, lastDigest_take n hl]
    rfl

theorem indexAt_last (hp : 0 < rows.length) :
    ∃ key, indexAt L t rows.length rows.length = .ok (key, lastDigest L root rows) := by
  have hl : rows.length - 1 < rows.length := by omega
  have hi := h.indexAt_ok hl
  have hd : lastDigest L root (rows.take (rows.length - 1 + 1)) = L.digest rows[rows.length - 1] :=
    lastDigest_take _ hl
  rw [Nat.sub_add_cancel hp] at hi hd
  rw [take_length] at hd
  rw [← hd] at hi
  exact ⟨_, hi⟩

theorem checkRow_ok (hn : n < rows.length) (hla : ∀ r, rows.getLast? = some r → L.atHead r = true) :
    checkRow L t rows.length (lastDigest L root rows) (L.key rows[n]) rows[n] = .ok () := by
  have hg : rows[n]? = some rows[n] := getElem?_eq_getElem hn
  obtain ⟨last, he⟩ := h.indexAt_last (by omega)
  have hh : (decide (n + 1 = rows.length) && !L.atHead rows[n]) = false := by
    by_cases hl : n + 1 = rows.length
    · have : rows.getLast? = some rows[n] := by
        rw [getLast?_eq_getElem?, ← hg]
        congr 1
        omega
      rw [hla _ this, Bool.not_true, Bool.and_false]
    · rw [decide_eq_false hl, Bool.false_and]
  unfold checkRow
  rw [h.ordinal n _ hg, h.indexAt_ok hn, h.parentOf_ok hn, he, hh]
  simp [ensure, bind, Except.bind]

theorem get_mem (hr : r ∈ rows) (hl : ∀ r, rows.getLast? = some r → L.atHead r = true) :
    get L t rows.length (lastDigest L root rows) (L.key r) = .ok (some r) := by
  obtain ⟨n, hn, rfl⟩ := getElem_of_mem hr
  have hle := (h.ordinal_le hr).2
  unfold get
  rw [if_pos (h.valid _ hr).1, h.stored _ hr]
  dsimp only
  rw [if_neg (by omega), h.checkRow_ok hn hl]

theorem get_cases (hg : get L t rows.length d key = .ok found) :
    (∃ r ∈ rows, L.key r = key ∧ found = some r) ∨ (found = none ∧ ∀ r ∈ rows, L.key r ≠ key) := by
  unfold get at hg
  split at hg
  · split at hg
    · next hn =>
      right
      refine ⟨(Except.ok.inj hg).symm, ?_⟩
      intro r hr hk
      have := h.stored r hr
      rw [hk, hn] at this
      cases this
    next r hso =>
    have hke := (h.point key r hso).1
    have hc := h.beyond key r hso
    split at hg
    · next hgt =>
      right
      refine ⟨(Except.ok.inj hg).symm, ?_⟩
      intro s hs hk
      have := h.stored s hs
      rw [hk, hso] at this
      cases Option.some.inj this
      have := (h.ordinal_le hs).2
      omega
    next hl =>
    left
    rcases hc with hi | hb
    · refine ⟨r, hi, hke, ?_⟩
      split at hg
      · exact (Except.ok.inj hg).symm
      · cases hg
    · omega
  · cases hg

theorem ahead [DecidableEq Row] (ho : rows.length < L.ordinal row) (hs : stageRow L t row = .ok t') :
    Selected L root t' rows := by
  unfold stageRow at hs
  split at hs
  · split at hs
    · cases hs
      exact h
    · cases hs
  · next hr hi =>
    cases hs
    have other : ∀ k r, t.rows.get k = some r → k ≠ L.key row ∧ L.ordinal r ≠ L.ordinal row := by
      intro k r hk
      constructor
      · intro he
        rw [he, hr] at hk
        cases hk
      intro he
      have := (h.point k r hk).2
      rw [he, hi] at this
      cases this
    have new : ∀ k r, (t.rows.insert (L.key row) row).get k = some r →
        (k = L.key row ∧ r = row) ∨ t.rows.get k = some r := by
      intro k r hk
      rw [OrdMap.get_insert] at hk
      split at hk
      · next he => exact .inl ⟨he, (Option.some.inj hk).symm⟩
      · exact .inr hk
    refine ⟨h.ordinal, h.linked, h.rooted, h.valid, ?_, ?_, ?_⟩
    · intro r hin
      have hst := h.stored r hin
      rw [OrdMap.get_insert_of_ne _ _ (other _ r hst).1]
      exact hst
    · intro k r hk
      rcases new k r hk with ⟨rfl, rfl⟩ | hk
      · exact ⟨rfl, OrdMap.get_insert_self _ _ _⟩
      refine ⟨(h.point k r hk).1, ?_⟩
      rw [OrdMap.get_insert_of_ne _ _ (other k r hk).2]
      exact (h.point k r hk).2
    intro k r hk
    rcases new k r hk with ⟨rfl, rfl⟩ | hk
    · exact .inr ho
    · exact h.beyond k r hk
  · cases hs

end

theorem staged_stored [DecidableEq Row] (hs : stageRow L t row = .ok t') :
    t'.rows.get (L.key row) = some row := by
  unfold stageRow at hs
  split at hs
  · next old entry hold _ =>
    split at hs
    · next he =>
      cases hs
      rw [hold, he.1]
    · cases hs
  · cases hs
    exact OrdMap.get_insert_self _ _ _
  · cases hs

/-- Advancing over the next row selects it, whether it was stored before or just now. -/
theorem advance [DecidableEq Row] (h : Selected L root t rows)
    (ho : L.ordinal row = rows.length + 1) (hp : L.parent row = lastDigest L root rows)
    (hro : L.root row = root) (hv : L.valid (L.key row) = true ∧ L.valid (L.digest row) = true)
    (hs : stageRow L t row = .ok t') : Selected L root t' (rows ++ [row]) := by
  have hb := h.ahead (by omega) hs
  have hst := staged_stored hs
  have last : ∀ {i : ℕ} {r : Row}, (rows ++ [row])[i]? = some r →
      rows[i]? = some r ∨ (i = rows.length ∧ r = row) := by
    intro i r hi
    rcases Nat.lt_trichotomy i rows.length with hl | heq | hg
    · rw [getElem?_append_left hl] at hi
      exact .inl hi
    · subst heq
      rw [getElem?_append_right (Nat.le_refl _), Nat.sub_self] at hi
      exact .inr ⟨rfl, (Option.some.inj hi).symm⟩
    · rw [getElem?_eq_none (by rw [length_append]; simp; omega)] at hi
      cases hi
  have mem : ∀ {r : Row}, r ∈ rows ++ [row] → r ∈ rows ∨ r = row := by
    intro r hr
    simpa using hr
  refine ⟨?_, ?_, ?_, ?_, ?_, hb.point, ?_⟩
  · intro i r hi
    rcases last hi with hi | ⟨rfl, rfl⟩
    · exact h.ordinal i r hi
    · exact ho
  · intro i r hi
    rcases last hi with hi | ⟨rfl, rfl⟩
    · have hl : i < rows.length := (List.getElem?_eq_some_iff.mp hi).1
      rw [take_append_of_le_length (Nat.le_of_lt hl)]
      exact h.linked i r hi
    · rw [take_append_of_le_length (Nat.le_refl _), take_length]
      exact hp
  · intro r hr
    rcases mem hr with hr | rfl
    · exact h.rooted r hr
    · exact hro
  · intro r hr
    rcases mem hr with hr | rfl
    · exact h.valid r hr
    · exact hv
  · intro r hr
    rcases mem hr with hr | rfl
    · exact hb.stored r hr
    · exact hst
  intro k r hk
  rcases hb.beyond k r hk with hin | hg
  · exact .inl (mem_append_left _ hin)
  by_cases he : L.ordinal r = rows.length + 1
  · -- The ordinal names one identity, so a row stored there is the advanced one.
    left
    have h1 := (hb.point k r hk).2
    have h2 := (hb.point _ row hst).2
    rw [he, ← ho, h2] at h1
    have hke : L.key row = k := congrArg Prod.fst (Option.some.inj h1)
    rw [← hke, hst] at hk
    rw [← Option.some.inj hk]
    exact mem_append_right _ (mem_singleton_self row)
  right
  rw [length_append, length_singleton]
  omega

end Selected

end ChainTable
