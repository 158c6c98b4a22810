import Kasumi.DirectoryUpdate
import Kasumi.SortedAssoc

/-! Well-formed page trees and the sorted entries they denote. A subtree is described
level by level from its stored pages; global order of the entries carries every separator
and range fact, so each page check of the reader follows from it. -/
namespace DirectoryTree

open DirectoryPages DirectoryUpdate FallibleState SortedAssoc List

variable {D : Type} {rs : List (Record D)}

abbrev Entries := List (DirectoryKey × DirectoryValue)

def leafRecord (e : DirectoryKey × DirectoryValue) : Record D := ⟨e.1, .leaf e.2⟩

@[simp] theorem leafRecord_key (e : DirectoryKey × DirectoryValue) :
    (leafRecord e : Record D).key = e.1 := rfl

def RecordOK (level generation : ℕ) (r : Record D) : Prop :=
  r.key.Valid ∧ match r.value with
    | .leaf v => level = 0 ∧ v.validate r.key generation = .ok ()
    | .branch p n => level ≠ 0 ∧ p.validate = .ok () ∧ n ≠ 0

structure PageOK (groupId generation : ℕ) (p : Page D) : Prop where
  group : p.groupId = groupId
  positive : p.generation ≠ 0
  bounded : p.generation ≤ generation
  level : p.level < maxHeight
  nonempty : p.records ≠ []
  count : p.count = p.records.length
  used : p.used = headerBytes + payload p.records
  fits : payload p.records ≤ directoryPageBytes - headerBytes
  sorted : p.records.Pairwise fun a b => a.key < b.key
  records : ∀ r ∈ p.records, RecordOK p.level p.generation r
  entries : p.entries = entriesOf p.records
  total : entriesOf p.records ≤ maxU64

def lastOffset : List (Record D) → (offset last : ℕ) → ℕ
  | [], _, last => last
  | r :: rs, offset, _ => lastOffset rs (offset + r.len) offset

def infoOf (p : Page D) : PageInfo :=
  { PageInfo.header p 0 with last := lastOffset p.records headerBytes 0 }

@[simp] theorem infoOf_level (p : Page D) : (infoOf p).level = p.level := rfl
@[simp] theorem infoOf_count (p : Page D) : (infoOf p).count = p.count := rfl
@[simp] theorem infoOf_used (p : Page D) : (infoOf p).used = p.used := rfl
@[simp] theorem infoOf_entries (p : Page D) : (infoOf p).entries = p.entries := rfl
@[simp] theorem infoOf_generation (p : Page D) : (infoOf p).generation = p.generation := rfl

theorem validateEntries_ok (info : PageInfo) (prev : Option DirectoryKey)
    (off es last : ℕ) (hr : ∀ r ∈ rs, RecordOK info.level info.generation r)
    (hs : rs.Pairwise fun a b => a.key < b.key) (hp : ∀ p ∈ prev, ∀ r ∈ rs, p < r.key)
    (ht : es + entriesOf rs ≤ maxU64) : validateEntries info rs off prev es last =
      .ok (off + payload rs, es + entriesOf rs, lastOffset rs off last) := by
  induction rs generalizing off prev es last with
  | nil => simp [validateEntries, lastOffset, pure, Except.pure]
  | cons r rs ih =>
    obtain ⟨hlt, hs⟩ := pairwise_cons.mp hs
    obtain ⟨hk, hv⟩ := hr r (by simp)
    have hpr : (prev.map fun p => decide (r.key ≤ p)).getD false = false := by
      cases prev with
      | none => rfl
      | some p => simpa using hp p rfl r (by simp)
    rw [entriesOf_cons] at ht
    have hre : validateEntries info rs (off + r.len) (some r.key) (es + r.entries)
        off = .ok (off + payload (r :: rs), es + entriesOf (r :: rs),
          lastOffset (r :: rs) off last) := by
      rw [ih _ _ _ _ (fun a ha => hr a (by simp [ha])) hs (by simpa using hlt) (by omega)]
      simp only [payload_cons, entriesOf_cons, lastOffset, Nat.add_assoc]
    have hro : ¬ es + r.entries > maxU64 := by omega
    rw [validateEntries, hpr]
    rcases r with ⟨key, v | ⟨page, n⟩⟩
    · obtain ⟨hl, hv⟩ := hv
      simp only [Record.entries] at hro hre
      simp [hk, hl, hv, hro, hre, bind, Except.bind, pure, Except.pure]
    obtain ⟨hl, hv, hn⟩ := hv
    obtain ⟨l, hl⟩ := Nat.exists_eq_succ_of_ne_zero hl
    simp only [Record.entries] at hro hre
    simp [hk, hl, hv, hn, hro, hre, bind, Except.bind, pure, Except.pure]

theorem validate_page_ok [DecidableEq D] {ref : DirectoryPageRef D}
    (h : PageOK root.groupId root.generation page) (hv : ref.validate = .ok ())
    (hd : ref.sha256 = digest page) :
    validateCheckedPage digest page root ref c = .ok (infoOf page) := by
  have he := validateEntries_ok (PageInfo.header page 0) none headerBytes 0 0 h.records h.sorted
    (by simp) (by simpa using h.total)
  have hf := h.fits
  have hc := h.count
  have hu := h.used
  have hl : page.records.length ≠ 0 := by simpa using h.nonempty
  have hb : ¬ (page.generation = 0 ∨ page.generation > root.generation ∨
      page.level ≥ maxHeight ∨ page.count = 0 ∨ page.used < headerBytes ∨
      page.used > directoryPageBytes) := by
    have h1 := h.positive
    have h2 := h.bounded
    have h3 := h.level
    have h4 : headerBytes ≤ directoryPageBytes := by decide
    omega
  have hdi : ¬ (c = .unchecked ∧ digest page ≠ ref.sha256) := by
    rw [hd]; simp
  have ht : ¬ (headerBytes + payload page.records ≠ page.used ∨
      0 + entriesOf page.records ≠ page.entries) := by
    rw [h.used, h.entries]; simp
  unfold validateCheckedPage
  simp only [hv, bind, Except.bind, hdi, h.group, ne_eq, not_true_eq_false, if_false]
  refine (if_neg hb).trans ?_
  refine (if_neg (by simp [PageInfo.header, hc])).trans ?_
  rw [he]
  exact if_neg ht

theorem record_len_pos (r : Record D) : 0 < r.len := by
  simp only [Record.len, DirectoryKey.encodedLen, keyHeaderBytes]
  omega

theorem offset_le_lastOffset (hr : rs ≠ []) (off last : ℕ) : off ≤ lastOffset rs off last := by
  induction rs generalizing off last with
  | nil => exact absurd rfl hr
  | cons r rs ih =>
    cases rs with
    | nil => simp [lastOffset]
    | cons q rs => exact le_trans (Nat.le_add_right _ _) (ih (by simp) (off + r.len) off)

theorem pageEntry_last (hrs : rs ≠ []) (off last : ℕ) :
    ∃ stop, pageEntry rs off (lastOffset rs off last) = .ok (rs.getLast hrs, stop) := by
  induction rs generalizing off last with
  | nil => exact absurd rfl hrs
  | cons r rs ih =>
    cases rs with
    | nil => exact ⟨off + r.len, by simp [lastOffset, pageEntry, pure, Except.pure]⟩
    | cons q rs =>
      obtain ⟨stop, h⟩ := ih (by simp) (off + r.len) off
      refine ⟨stop, ?_⟩
      have hl := offset_le_lastOffset (cons_ne_nil q rs) (off + r.len) off
      have hr := record_len_pos r
      rw [show lastOffset (r :: q :: rs) off last
        = lastOffset (q :: rs) (off + r.len) off from rfl, pageEntry, if_neg (by omega), h]
      rfl

structure Stored (B : DirectoryBackend D) (s : B.Store) (r : DirectoryPageRef D) (p : Page D) :
    Prop where
  read : B.readPage s r = .ok p
  valid : r.validate = .ok ()
  digest : r.sha256 = B.digest p

def Extends (B : DirectoryBackend D) (s t : B.Store) : Prop :=
  ∀ r p, B.readPage s r = .ok p → B.readPage t r = .ok p

theorem extends_refl (B : DirectoryBackend D) (s : B.Store) : Extends B s s := fun _ _ h => h

theorem extends_trans
    (h : Extends B s t) (k : Extends B t u) : Extends B s u := fun r p hp => k r p (h r p hp)

theorem Stored.mono (h : Stored B s r p) (hs : Extends B s t) : Stored B t r p :=
  ⟨hs r p h.read, h.valid, h.digest⟩

/-- The contract of the page arena: pages are append-only, identifiers are never reused and
an append returns a valid reference with the digest of exactly the supplied page. -/
structure AppendOnly (B : DirectoryBackend D) : Prop where
  grows : ∀ s p, Extends B s (B.appendPage s p).2
  stored : ∀ s p r t, B.appendPage s p = (.ok r, t) → Stored B t r p
  refusal : ∀ s p e t, B.appendPage s p = (.error e, t) → e.isCorrupt = false

def tooHigh : CoreError := .invalidInput "directory exceeds maximum height"
def overflow : CoreError := .invalidInput "directory entry count overflow"

/-- The refusals of an edit: its own two, or the arena's refusal to append a page. -/
def Refusal (B : DirectoryBackend D) (e : CoreError) : Prop :=
  e = tooHigh ∨ e = overflow ∨ ∃ s p, (B.appendPage s p).1 = .error e

/-- The program only extends the store, and ends in a refusal or with a result meeting `Q`. -/
def Grows {B : DirectoryBackend D} {α : Type} (s : B.Store) (x : DirM B α)
    (Q : α → B.Store → Prop) : Prop :=
  Meets s x (fun e t => Refusal B e ∧ Extends B s t) (fun a t => Extends B s t ∧ Q a t)

section Rules

variable {B : DirectoryBackend D} {α β : Type} {s : B.Store} {a : α}

theorem grows_pure (h : Q a s) : Grows s (pure a : DirM B α) Q :=
  meets_pure ⟨extends_refl B s, h⟩

theorem grows_throw (h : Refusal B e) : Grows s (throw e : DirM B α) Q :=
  meets_throw ⟨h, extends_refl B s⟩

theorem grows_bind (hx : Grows s x P)
    (hf : ∀ b t, Extends B s t → P b t → Grows t (f b) Q) : Grows s (x >>= f) Q := by
  refine meets_bind (meets_mono hx (fun _ _ h => h) fun b t h => ?_)
  refine meets_mono (hf b t h.1 h.2) (fun e u he => ⟨he.1, ?_⟩) (fun a u hu => ⟨?_, hu.2⟩)
  · exact extends_trans h.1 he.2
  · exact extends_trans h.1 hu.1

theorem grows_mono (hx : Grows s x P) (h : ∀ a t, Extends B s t → P a t → Q a t) : Grows s x Q :=
  meets_mono hx (fun _ _ he => he) fun a t ha => ⟨ha.1, h a t ha.1 ha.2⟩

theorem grows_check (hx : x = .ok a) (h : Q a s) :
    Grows s (check x : DirM B α) Q := meets_check hx ⟨extends_refl B s, h⟩

theorem grows_check_bind (hx : x = .ok b) (h : Grows s (f b) Q) :
    Grows s (check x >>= f : DirM B α) Q :=
  grows_bind (P := fun a t => a = b ∧ t = s) (grows_check hx ⟨rfl, rfl⟩)
    (by rintro _ _ - ⟨rfl, rfl⟩; exact h)

theorem grows_check_error (hx : x = .error e) (h : Refusal B e) :
    Grows s (check x >>= f : DirM B α) Q := by
  subst hx
  exact grows_bind (P := fun _ _ => False) (grows_throw h) (by intros; contradiction)

theorem grows_bind_bind (hx : Grows s (x >>= f) P) (hg : ∀ b t, Extends B s t → P b t → Grows t (g b) Q)
    : Grows s (x >>= fun a => f a >>= g) Q := by
  rw [← bind_assoc]
  exact grows_bind hx hg

theorem grows_lend (h : Stored B s r p) : Grows s (lendPage B r) fun a t => p = a ∧ s = t := by
  refine meets_bind (meets_mono (E := fun _ _ => False) (Q := fun a t => a = s ∧ t = s)
    ⟨rfl, rfl⟩ (fun _ _ h => h.elim) ?_)
  rintro _ _ ⟨rfl, rfl⟩
  exact meets_check h.read ⟨extends_refl B _, rfl, rfl⟩

variable [DecidableEq D]

theorem grows_append (hB : AppendOnly B) (p : Page D) :
    Grows s (appendDigestedPage B p (B.digest p)) fun r t => Stored B t r p := by
  refine grows_bind (P := fun r t => Stored B t r p) ?_ ?_
  · have hg := hB.grows s p
    have hs := hB.stored s p
    unfold Grows Meets
    rw [show (ExceptT.run fun s => B.appendPage s p : StateM B.Store _).run s
      = B.appendPage s p from rfl]
    rcases h : B.appendPage s p with ⟨e | r, t⟩
    · rw [h] at hg
      exact ⟨Or.inr (Or.inr ⟨s, p, by rw [h]⟩), hg⟩
    · rw [h] at hg
      exact ⟨hg, hs r t h⟩
  intro r t _ hr
  rw [if_neg (by simpa using hr.digest)]
  exact grows_pure hr

theorem grows_load {bds : Bounds} (hr : Stored B s r p) (hp : PageOK root.groupId root.generation p)
    (hb : bds.check p (infoOf p) = .ok ()) :
    Grows s (load B root r bds) fun a t => (p, infoOf p) = a ∧ s = t := by
  refine grows_bind (grows_lend hr) ?_
  rintro _ _ - ⟨rfl, rfl⟩
  refine grows_check_bind (validate_page_ok hp hr.valid hr.digest) ?_
  exact grows_check_bind hb (grows_pure ⟨rfl, rfl⟩)

end Rules

structure CarryOK (P : DirectoryPageRef D → Entries → Prop) (c : Carry D) (l : Entries) : Prop where
  below : P c.page l
  entries : c.entries = l.length
  key : l.head?.map Prod.fst = some c.key

/-- The page tree below a reference: uniform depth, page generations that do not increase
downwards and, in order, the entries of its leaves. -/
def Subtree (B : DirectoryBackend D) (s : B.Store) (groupId : ℕ) :
    (level generation : ℕ) → DirectoryPageRef D → Entries → Prop
  | 0, generation, r, l => ∃ p, Stored B s r p ∧ PageOK groupId generation p ∧ p.level = 0 ∧
      p.records = l.map leafRecord
  | n + 1, generation, r, l => ∃ p cs ls, Stored B s r p ∧ PageOK groupId generation p ∧
      p.level = n + 1 ∧ p.records = cs.map Carry.record ∧
      List.Forall₂ (CarryOK (Subtree B s groupId n p.generation)) cs ls ∧ l = ls.flatten

section Subtrees

variable {B : DirectoryBackend D} {s : B.Store} {l : Entries}
  {P : DirectoryPageRef D → Entries → Prop} {p : Page D} {r : DirectoryPageRef D}

theorem CarryOK.imp (h : CarryOK P c l) (hp : ∀ r l, P r l → Q r l) : CarryOK Q c l :=
  ⟨hp _ _ h.below, h.entries, h.key⟩

/-- A child's key is its least: the entries after it are not smaller, those before it are. -/
theorem CarryOK.key_le (h : CarryOK P c l) (hs : Sorted (l ++ m)) : ∀ e ∈ l ++ m, c.key ≤ e.1 := by
  obtain ⟨f, hf, hk⟩ := Option.map_eq_some_iff.mp h.key
  obtain ⟨rest, rfl⟩ := head?_eq_some_iff.mp hf
  intro e he
  rw [← hk]
  rcases mem_cons.mp he with rfl | he
  · exact le_refl _
  · exact le_of_lt ((sorted_cons.mp hs).1 e he)

theorem CarryOK.lt_key (h : CarryOK P c l) (hs : Sorted (m ++ l)) : ∀ e ∈ m, e.1 < c.key := by
  obtain ⟨f, hf, hk⟩ := Option.map_eq_some_iff.mp h.key
  intro e he
  rw [← hk]
  exact (sorted_append.mp hs).2.2 e he f (mem_of_mem_head? hf)

theorem PageOK.mono (h : PageOK gid gen p) (hg : gen ≤ generation') : PageOK gid generation' p :=
  { h with bounded := le_trans h.bounded hg }

theorem Subtree.mono_generation (h : Subtree B s gid n g r l) (hg : g ≤ g') :
    Subtree B s gid n g' r l := by
  cases n with
  | zero =>
    obtain ⟨p, hs, hp, hl, hr⟩ := h
    exact ⟨p, hs, hp.mono hg, hl, hr⟩
  | succ n =>
    obtain ⟨p, cs, ls, hs, hp, hl, hr, hc, he⟩ := h
    exact ⟨p, cs, ls, hs, hp.mono hg, hl, hr, hc, he⟩

theorem Subtree.mono_store (h : Subtree B s gid n g r l) (hst : Extends B s t) :
    Subtree B t gid n g r l := by
  induction n generalizing g r l with
  | zero =>
    obtain ⟨p, hs, hp, hl, hr⟩ := h
    exact ⟨p, hs.mono hst, hp, hl, hr⟩
  | succ n ih =>
    obtain ⟨p, cs, ls, hs, hp, hl, hr, hc, he⟩ := h
    exact ⟨p, cs, ls, hs.mono hst, hp, hl, hr, hc.imp fun _ _ h => h.imp fun _ _ => ih, he⟩

structure NodeOf (p : Page D) (l : Entries) : Prop where
  entries : entriesOf p.records = l.length
  first : p.records.head?.map Record.key = l.head?.map Prod.fst
  keys : ∀ r ∈ p.records, ∃ e ∈ l, e.1 = r.key

theorem entriesOf_leaves (l : Entries) : entriesOf (l.map leafRecord : List (Record D)) = l.length := by
  induction l with
  | nil => rfl
  | cons e l ih => simp [ih, leafRecord, Record.entries, Nat.add_comm]

section Carries

variable {P : DirectoryPageRef D → Entries → Prop} {cs : List (Carry D)} {ls : List Entries}

section

variable (h : List.Forall₂ (CarryOK P) cs ls)

include h

theorem entriesOf_carries : entriesOf (cs.map Carry.record) = ls.flatten.length := by
  induction h with
  | nil => rfl
  | cons hc _ ih => simp [ih, Carry.record, Record.entries, hc.entries]

theorem first_carry :
    (cs.map Carry.record).head?.map Record.key = ls.flatten.head?.map Prod.fst := by
  cases h with
  | nil => rfl
  | cons hc _ =>
    obtain ⟨e, he, hk⟩ := Option.map_eq_some_iff.mp hc.key
    simp [Carry.record, head?_append, he, hk]

theorem carry_key_mem (hc : c ∈ cs) : ∃ e ∈ ls.flatten, e.1 = c.key := by
  induction h with
  | nil => cases hc
  | cons ha _ ih =>
    rcases mem_cons.mp hc with rfl | hc
    · obtain ⟨e, he, hk⟩ := Option.map_eq_some_iff.mp ha.key
      exact ⟨e, by simp [mem_of_mem_head? he], hk⟩
    · obtain ⟨e, he, hk⟩ := ih hc
      exact ⟨e, by simp only [flatten_cons, mem_append]; exact .inr he, hk⟩

end

end Carries

theorem Subtree.leaf (h : Subtree B s gid 0 g r l) : ∃ p, Stored B s r p ∧ PageOK gid g p ∧
    p.level = 0 ∧ NodeOf p l ∧ p.records = l.map leafRecord := by
  obtain ⟨p, hs, hp, hl, hr⟩ := h
  refine ⟨p, hs, hp, hl, ⟨by rw [hr, entriesOf_leaves], ?_, ?_⟩, hr⟩
  · rw [hr]; cases l <;> rfl
  rw [hr]
  intro a ha
  obtain ⟨e, he, rfl⟩ := mem_map.mp ha
  exact ⟨e, he, rfl⟩

theorem Subtree.branch (h : Subtree B s gid (n + 1) g r l) : ∃ p cs ls, Stored B s r p ∧
    PageOK gid g p ∧ p.level = n + 1 ∧ NodeOf p l ∧ p.records = cs.map Carry.record ∧
    List.Forall₂ (CarryOK (Subtree B s gid n p.generation)) cs ls ∧ l = ls.flatten := by
  obtain ⟨p, cs, ls, hs, hp, hl, hr, hc, rfl⟩ := h
  refine ⟨p, cs, ls, hs, hp, hl, ⟨by rw [hr, entriesOf_carries hc], by rw [hr, first_carry hc], ?_⟩,
    hr, hc, rfl⟩
  rw [hr]
  intro a ha
  obtain ⟨c, hm, rfl⟩ := mem_map.mp ha
  exact carry_key_mem hc hm

theorem Subtree.top (h : Subtree B s gid n g r l) :
    ∃ p, Stored B s r p ∧ PageOK gid g p ∧ p.level = n ∧ NodeOf p l := by
  cases n with
  | zero =>
    obtain ⟨p, hs, hp, hl, hn, _⟩ := h.leaf
    exact ⟨p, hs, hp, hl, hn⟩
  | succ n =>
    obtain ⟨p, _, _, hs, hp, hl, hn, _⟩ := h.branch
    exact ⟨p, hs, hp, hl, hn⟩

theorem Subtree.nonempty (h : Subtree B s gid n g r l) : l ≠ [] := by
  obtain ⟨p, -, hp, -, hn⟩ := h.top
  rintro rfl
  have := hn.first
  have hne := hp.nonempty
  cases hr : p.records <;> simp_all

structure BoundsOK (b : Bounds) (level generation : ℕ) (l : Entries) : Prop where
  level : b.level = level
  entries : b.entries = l.length
  generation : b.generation = generation
  lower : ∀ k ∈ b.lower, l.head?.map Prod.fst = some k
  upper : ∀ k ∈ b.upper, ∀ e ∈ l, e.1 < k

theorem nthEntry_ok (hp : PageOK gid g p) (ha : p.records[i]? = some a) :
    nthEntry p (infoOf p) i = .ok a := by
  have hl := (List.getElem?_eq_some_iff.mp ha).1
  unfold nthEntry
  rw [if_neg (by rw [infoOf_count, hp.count]; omega), ha]
  rfl

theorem bounds_check_ok (hb : BoundsOK b n g l) (hp : PageOK gid g p)
    (hl : p.level = n) (hn : NodeOf p l) : b.check p (infoOf p) = .ok () := by
  have hs : ¬ ((infoOf p).level ≠ b.level ∨ (infoOf p).entries ≠ b.entries ∨
      (infoOf p).generation > b.generation) := by
    have := hp.bounded
    simp only [infoOf_level, infoOf_entries, infoOf_generation, hb.level, hb.entries,
      hb.generation, hl, hp.entries, hn.entries]
    omega
  obtain ⟨first, rest, hr⟩ := exists_cons_of_ne_nil hp.nonempty
  have hf : nthEntry p (infoOf p) 0 = .ok first := nthEntry_ok hp (by rw [hr]; rfl)
  obtain ⟨stop, hla⟩ := pageEntry_last hp.nonempty headerBytes 0
  rw [show lastOffset p.records headerBytes 0 = (infoOf p).last from rfl] at hla
  have hlow : ∀ k ∈ b.lower, first.key = k := by
    intro k hk
    have h := hn.first
    rw [hb.lower k hk, hr] at h
    simpa using h
  have hu : ∀ k ∈ b.upper, ¬ (p.records.getLast hp.nonempty).key ≥ k := by
    intro k hk
    obtain ⟨e, he, hke⟩ := hn.keys _ (getLast_mem hp.nonempty)
    rw [← hke]
    exact not_le.mpr (hb.upper k hk e he)
  unfold Bounds.check
  simp only [bind, Except.bind]
  refine (if_neg hs).trans ?_
  cases hlo : b.lower with
  | none =>
    cases hup : b.upper with
    | none => rfl
    | some u => simp only [hla]; exact if_neg (hu u hup)
  | some k =>
    simp only [hf, hlow k hlo, ne_eq, not_true_eq_false, if_false]
    cases hup : b.upper with
    | none => rfl
    | some u => simp only [hla]; exact if_neg (hu u hup)

end Subtrees

end DirectoryTree
