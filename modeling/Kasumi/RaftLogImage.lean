import Kasumi.IndexedLog
import Kasumi.RaftLogRows

/-! The log that the rows stand for. A log is a partial function from indices to entries; the
rows represent it when every entry of it has its header, body and seed and every other index has
no header and no closed body. The retained span of such a log is found again from its headers,
in whichever order they are visited. -/
namespace RaftLogImage

open FallibleSteps TenantTypes RaftLogTypes RaftLogStore RaftLogRows IndexedLog List

variable {M K : Type}

abbrev Log (M : Type) := ℕ → Option (Entry M)

/-- The rows of one index are those of an entry with this header and seed. -/
structure Holds (X : Node M K) (e : Entry M) (h : LogHeader M) (seed : Option Bytes)
    (r : EntryRows M) : Prop where
  built : LogHeader.build X.toFormats e (encodeEntry X.toFormats e) = .ok (h, seed)
  valid : h.validate X.toFormats = .ok ()
  header : r.header = some h
  custody : r.custody = if h.payload.closed then some (encodeEntry X.toFormats e) else none
  body : X.serving = true →
    r.body = if h.payload.closed then none else some (encodeEntry X.toFormats e)
  domain : X.serving = false → h.payload.closed = true ∨ e.payload.isNormal = false
  seeded : r.seed.map (fun s => (s.header, s.seed)) = seed.map (Prod.mk h)

/-- `B` and `S` are the indices at which a body and a seed may be left without a header. -/
structure Represents (X : Node M K) (B S : ℕ → Prop) (rows : Rows M) (log : Log M) : Prop where
  indexed : Indexed Entry.index log
  words : ∀ i e, log i = some e → e.logId.Word
  holds : ∀ i e, log i = some e → ∃ h seed, Holds X e h seed (rowsAt rows i)
  absent : ∀ i, log i = none → rows.headers.get i = none ∧ rows.custodyLog.get i = none
  bodies : ∀ i, log i = none → rows.log.get i ≠ none → B i
  domain : X.serving = false → ∀ i, rows.log.get i = none
  seeds : ∀ i, log i = none → rows.seeds.get i ≠ none → S i

def Spans (log : Log M) : Option RetainedSpan → Prop
  | none => Vacant log
  | some span => ∃ p q, Extent Entry.index log p q ∧ span = ⟨p.logId, q.logId⟩

theorem Holds.logId (hh : Holds X e h seed r) : h.logId = e.logId := (build_ok hh.built).2.1

structure RowOK (X : Node M K) (B S : ℕ → Prop) (i : ℕ) (r : EntryRows M)
    (entry : Option (Entry M)) : Prop where
  held : ∀ e, entry = some e → e.index = i ∧ e.logId.Word ∧ ∃ h seed, Holds X e h seed r
  absent : entry = none → r.header = none ∧ r.custody = none
  left : entry = none → (r.body ≠ none → B i) ∧ (r.seed ≠ none → S i)
  domain : X.serving = false → r.body = none

theorem represents_iff :
    Represents X B S rows log ↔ ∀ i, RowOK X B S i (rowsAt rows i) (log i) := by
  constructor
  · intro hr i
    exact
      { held := fun e he => ⟨hr.indexed i e he, hr.words i e he, hr.holds i e he⟩
        absent := hr.absent i
        left := fun h => ⟨hr.bodies i h, hr.seeds i h⟩
        domain := fun hs => hr.domain hs i }
  intro h
  exact
    { indexed := fun i e he => ((h i).held e he).1
      words := fun i e he => ((h i).held e he).2.1
      holds := fun i e he => ((h i).held e he).2.2
      absent := fun i => (h i).absent
      bodies := fun i hi => ((h i).left hi).1
      domain := fun hs i => (h i).domain hs
      seeds := fun i hi => ((h i).left hi).2 }

theorem Represents.header_some (hr : Represents X B S rows log) (hi : rows.headers.get i = some h) :
    ∃ e seed, log i = some e ∧ Holds X e h seed (rowsAt rows i) := by
  cases he : log i with
  | none =>
    rw [(hr.absent i he).1] at hi
    cases hi
  | some e =>
    obtain ⟨h', seed, hh⟩ := hr.holds i e he
    have heq : rows.headers.get i = some h' := hh.header
    rw [heq] at hi
    cases hi
    exact ⟨e, seed, rfl, hh⟩

theorem readHeader_ok (hr : Represents X B S rows log) (he : log i = some e) :
    ∃ h seed, readHeader X rows i = .ok h ∧ Holds X e h seed (rowsAt rows i) := by
  obtain ⟨h, seed, hh⟩ := hr.holds i e he
  have hg : rows.headers.get i = some h := hh.header
  have hi : h.logId.index = i := by
    rw [hh.logId]
    exact hr.indexed i e he
  refine ⟨h, seed, ?_, hh⟩
  rw [readHeader, ok_bind (demand_some hg), ok_bind hh.valid,
    ok_bind (check_true (beq_iff_eq.mpr hi))]
  rfl

structure Seen (visited : List (ℕ × LogHeader M)) (fold : HeaderFold) : Prop where
  count : fold.count = visited.length
  empty : fold.span = none → visited = []
  ends : ∀ span, fold.span = some span →
    (∃ r ∈ visited, r.2.logId = span.first) ∧ (∃ r ∈ visited, r.2.logId = span.last) ∧
      ∀ r ∈ visited, span.first.index ≤ r.1 ∧ r.1 ≤ span.last.index

theorem observe_seen (hs : Seen visited fold)
    (hv : row.2.validate F = .ok ()) (hi : row.2.logId.index = row.1) :
    ∃ next, HeaderFold.observe F fold row = .ok next ∧ Seen (visited ++ [row]) next := by
  have hc := hs.count
  rw [HeaderFold.observe, ok_bind hv, HeaderFold.observeId,
    ok_bind (check_true (beq_iff_eq.mpr hi))]
  refine ⟨_, rfl, ?_⟩
  cases hsp : fold.span with
  | none =>
    have hn := hs.empty hsp
    subst hn
    constructor
    · simp [hc]
    · intro h
      cases h
    intro span h
    cases h
    refine ⟨⟨row, by simp, rfl⟩, ⟨row, by simp, rfl⟩, ?_⟩
    intro r hr
    rw [nil_append, mem_singleton] at hr
    subst hr
    exact ⟨hi.le, hi.ge⟩
  | some old =>
    obtain ⟨⟨rf, hrf, hf⟩, ⟨rl, hrl, hl⟩, hb⟩ := hs.ends old hsp
    constructor
    · simp [hc]
    · intro h
      cases h
    intro span h
    cases h
    refine ⟨?_, ?_, ?_⟩
    · by_cases hlt : row.1 < old.first.index
      · exact ⟨row, by simp, (if_pos hlt).symm⟩
      · exact ⟨rf, by simp [hrf], hf.trans (if_neg hlt).symm⟩
    · by_cases hg : row.1 > old.last.index
      · exact ⟨row, by simp, (if_pos hg).symm⟩
      · exact ⟨rl, by simp [hrl], hl.trans (if_neg hg).symm⟩
    -- the new row moves an end only outwards
    intro r hr
    rcases mem_append.mp hr with hr | hr
    · have := hb r hr
      dsimp only
      constructor
      · split
        · omega
        · exact this.1
      split
      · omega
      · exact this.2
    rw [mem_singleton] at hr
    subst hr
    dsimp only
    constructor
    · split
      · exact hi.le
      · omega
    split
    · exact hi.ge
    · omega

theorem foldlM_seen (rows : List (ℕ × LogHeader M))
    (hva : ∀ r ∈ rows, r.2.validate F = .ok () ∧ r.2.logId.index = r.1) :
    ∀ (visited : List (ℕ × LogHeader M)) (fold : HeaderFold), Seen visited fold →
      ∃ last, rows.foldlM (HeaderFold.observe F) fold = .ok last ∧ Seen (visited ++ rows) last := by
  induction rows with
  | nil =>
    intro visited fold hs
    exact ⟨fold, rfl, by simpa using hs⟩
  | cons row rows ih =>
    intro visited fold hs
    obtain ⟨hv, hi⟩ := hva row mem_cons_self
    obtain ⟨next, hn, hse⟩ := observe_seen hs hv hi
    obtain ⟨last, hl, ha⟩ :=
      ih (fun r hr => hva r (mem_cons_of_mem _ hr)) _ next hse
    refine ⟨last, ?_, by simpa using ha⟩
    rw [foldlM_cons, ok_bind hn, hl]

theorem length_of_extent (hx : Extent Entry.index log p q)
    (hr : Represents X B S rows log) : rows.headers.entries.length = q.index - p.index + 1 := by
  have hm : ∀ i, i ∈ rows.headers.keys ↔ i ∈ List.range' p.index (q.index - p.index + 1) := by
    intro i
    rw [OrdMap.mem_keys, OrdMap.contains, mem_range'_1]
    have hl := hx.le
    have hf := hx.filled i
    cases he : log i with
    | none =>
      rw [(hr.absent i he).1]
      rw [he] at hf
      simp only [Option.isSome_none, Bool.false_eq_true, false_iff] at hf ⊢
      omega
    | some e =>
      obtain ⟨h, seed, hh⟩ := hr.holds i e he
      have hg : rows.headers.get i = some h := hh.header
      rw [hg]
      rw [he] at hf
      simp only [Option.isSome_some, true_iff] at hf ⊢
      omega
  have hp : rows.headers.keys.Perm (List.range' p.index (q.index - p.index + 1)) :=
    (perm_ext_iff_of_nodup rows.headers.keys_nodup nodup_range').mpr hm
  have := hp.length_eq
  rwa [OrdMap.keys, length_map, length_range'] at this

/-- However the headers are visited, opening finds the span of the log they describe. -/
theorem retainedSpan_eq (hr : Represents X B S rows log) (hs : Spans log retained)
    (ho : order.Perm rows.headers.entries) : retainedSpan X.toFormats order = .ok retained := by
  have hro : ∀ r ∈ order, ∃ e seed, log r.1 = some e ∧ Holds X e r.2 seed (rowsAt rows r.1) := by
    intro r hm
    exact hr.header_some (OrdMap.mem_entries.mp (ho.mem_iff.mp hm))
  have hv : ∀ r ∈ order, r.2.validate X.toFormats = .ok () ∧ r.2.logId.index = r.1 := by
    intro r hm
    obtain ⟨e, seed, he, hh⟩ := hro r hm
    refine ⟨hh.valid, ?_⟩
    rw [hh.logId]
    exact hr.indexed _ e he
  obtain ⟨last, hlas, hse⟩ := foldlM_seen order hv [] ⟨none, 0⟩
    ⟨rfl, fun _ => rfl, fun _ h => nomatch h⟩
  rw [nil_append] at hse
  rw [retainedSpan, ok_bind hlas, HeaderFold.finish]
  cases retained with
  | none =>
    have hn : order = [] := by
      apply eq_nil_iff_forall_not_mem.mpr
      intro r hm
      obtain ⟨e, _, he, _⟩ := hro r hm
      rw [hs r.1] at he
      cases he
    cases hspa : last.span with
    | none => rfl
    | some span =>
      obtain ⟨⟨r, hm, _⟩, _⟩ := hse.ends span hspa
      rw [hn] at hm
      cases hm
  | some target =>
    obtain ⟨p, q, hx, rfl⟩ := hs
    obtain ⟨hp, seedp, hhp⟩ := hr.holds _ p hx.start
    obtain ⟨hq, seedq, hhq⟩ := hr.holds _ q hx.stop
    have hme : (p.index, hp) ∈ order := ho.mem_iff.mpr (OrdMap.mem_entries.mpr hhp.header)
    have hmemq : (q.index, hq) ∈ order := ho.mem_iff.mpr (OrdMap.mem_entries.mpr hhq.header)
    cases hspa : last.span with
    | none =>
      rw [hse.empty hspa] at hme
      cases hme
    | some span =>
      obtain ⟨⟨rf, hrf, hf⟩, ⟨rl, hrl, hl⟩, hb⟩ := hse.ends span hspa
      -- an end of the fold is a visited index, so it lies within the log and is its end
      have hfi : span.first = p.logId := by
        obtain ⟨e, seed, he, hh⟩ := hro rf hrf
        have hg := ((hx.filled rf.1).mp (by rw [he]; rfl)).1
        have hle : span.first.index ≤ p.index := (hb _ hme).1
        have hk : rf.1 = p.index := by
          rw [← (hv rf hrf).2, hf]
          rw [← (hv rf hrf).2, hf] at hg
          omega
        rw [hk, hx.start] at he
        cases he
        rw [← hf, hh.logId]
      have hla : span.last = q.logId := by
        obtain ⟨e, seed, he, hh⟩ := hro rl hrl
        have hle := ((hx.filled rl.1).mp (by rw [he]; rfl)).2
        have hg : q.index ≤ span.last.index := (hb _ hmemq).2
        have hk : rl.1 = q.index := by
          rw [← (hv rl hrl).2, hl]
          rw [← (hv rl hrl).2, hl] at hle
          omega
        rw [hk, hx.stop] at he
        cases he
        rw [← hl, hh.logId]
      have hc : last.count = span.last.index - span.first.index + 1 := by
        rw [hse.count, ho.length_eq, length_of_extent hx hr, hfi, hla]
        rfl
      have hsp : span = ⟨p.logId, q.logId⟩ := by rw [← hfi, ← hla]
      dsimp only
      rw [ok_bind (check_true (beq_iff_eq.mpr hc)), hsp]
      rfl

theorem checkWindows_ok (hc : Consecutive Entry.index f es) (hw : ∀ e ∈ es, e.index < wordSize) :
    checkWindows es = .ok () := by
  induction es generalizing f with
  | nil => rfl
  | cons a rest ih =>
    cases rest with
    | nil => rfl
    | cons b rest =>
      have hb : b.index = a.index + 1 := by rw [hc.head, hc.tail.head]
      have hwo : a.index + 1 < wordSize := hb ▸ hw b (by simp)
      have hn : checkedAdd a.index 1 = some b.index := by
        rw [checkedAdd, if_pos hwo, hb]
      rw [checkWindows, ok_bind (check_true (beq_iff_eq.mpr hn))]
      exact ih hc.tail (fun e he => hw e (mem_cons_of_mem _ he))

def Touches (retained : Option RetainedSpan) (entries : List (Entry M)) : Prop :=
  ∀ span, retained = some span → ∀ a b, entries.head? = some a → entries.getLast? = some b →
    a.index ≤ span.last.index + 1 ∧ span.first.index ≤ b.index + 1

theorem including_ok (hs : Spans log retained)
    (hc : Consecutive Entry.index f es) (hw : ∀ e ∈ es, e.index < wordSize) (hn : es ≠ [])
    (ht : Touches retained es) : ∃ next, including retained es = .ok next ∧
    Spans (put Entry.index log es) (some next) ∧ ∃ a b, es.head? = some a ∧ es.getLast? = some b ∧
    next = (retained.elim ⟨a.logId, b.logId⟩ fun span => extend span a.logId b.logId) := by
  have ha := head?_eq_some_head hn
  have hb := getLast?_eq_some_getLast hn
  cases retained with
  | none =>
    refine ⟨⟨(es.head hn).logId, (es.getLast hn).logId⟩, ?_, ?_, _, _, ha, hb, rfl⟩
    · rw [including, ok_bind (demand_some ha), ok_bind (demand_some hb),
        ok_bind (checkWindows_ok hc hw)]
      rfl
    · exact ⟨_, _, extent_put_vacant hs hc ha hb, rfl⟩
  | some span =>
    obtain ⟨p, q, hx, rfl⟩ := hs
    obtain ⟨hr, hlef⟩ := ht _ rfl _ _ ha hb
    refine ⟨_, ?_, ?_, _, _, ha, hb, rfl⟩
    · rw [including, ok_bind (demand_some ha), ok_bind (demand_some hb),
        ok_bind (checkWindows_ok hc hw)]
      dsimp only
      rw [ok_bind (check_true (by simp [hr, hlef]))]
      rfl
    refine ⟨_, _, hx.put hc ha hb hr hlef, ?_⟩
    unfold extend Option.elim
    dsimp only
    congr 1
    · split <;> rename_i hl
      · rw [if_pos (show (es.head hn).index ≤ p.index from hl)]
      · rw [if_neg (show ¬ (es.head hn).index ≤ p.index from hl)]
    split <;> rename_i hl
    · rw [if_pos (show q.index ≤ (es.getLast hn).index from hl)]
    · rw [if_neg (show ¬ q.index ≤ (es.getLast hn).index from hl)]

end RaftLogImage
