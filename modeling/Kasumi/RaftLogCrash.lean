import Kasumi.RaftLogLocal

/-! Runs of the log store. Operations follow one another, each of them may be cut after any of
its batches and the store opened again from its rows, and a retirement may be accepted in
between. After every run the rows represent the log that the events leave. -/
namespace RaftLogCrash

open TenantTypes FallibleSteps RaftLogTypes RaftLogStore RaftLogRows RaftLogImage RaftLogEntries
  RaftLogAppend RaftLogCuts RaftLogPurge RaftLogLocal RaftLogReads IndexedLog List

variable {M K : Type}

inductive Operation (M : Type)
  | append (entries : List (Entry M)) (commitLocal : Bool)
  | localAppend (entries : List (Entry M))
  | truncate (id : LogId)
  | purge (id : LogId)
  | saveCommitted (committed : Option LogId)

def execute (X : Node M K) : Operation M → ℕ → LogStore M K →
    Except String (LogStore M K × Bool)
  | .append entries commitLocal => append X entries commitLocal
  | .localAppend entries => localAppend X entries
  | .truncate id => truncate X id
  | .purge id => purge X id
  | .saveCommitted committed => saveCommitted X committed

def Admissible (X : Node M K) (s : LogStore M K) : Operation M → Prop
  | .append entries commitLocal =>
    Appendable X s entries (committedWrites entries commitLocal) ∧
      (commitLocal = true → entries.length = 1 ∧
        positionLt s.rows.committed (entries.head?.map Entry.logId) = true ∧
        CommitAccepted X s (entries.head?.map Entry.logId))
  | .localAppend entries => Publishable X s entries
  | .truncate id => ∀ c, s.rows.committed = some c → c.index < id.index
  | .purge id => id.Word ∧ X.purgeReady s.controls = .ok ()
  | .saveCommitted committed => Committable X s committed

inductive Event (M : Type)
  | operation (op : Operation M) (finished : Bool)
  | reopened
  | retired (id : LogId)
  | controls

/-- A store without a log, with the seed of a retirement if it starts retired. -/
structure Installed (X : Node M K) (s : LogStore M K) : Prop where
  headers : s.rows.headers = .empty
  custodyLog : s.rows.custodyLog = .empty
  log : s.rows.log = .empty
  seeds : ∀ i, s.rows.seeds.get i ≠ none → ∃ bd, s.boundary = some bd ∧ bd.index = i
  retained : s.retained = none
  boundary : retiredBoundary X s = .ok s.boundary
  mode : X.serving = false → s.boundary.isSome = true

/-- The runs of a store: a cut loses what is in memory, and opening visits the header rows in
any order. -/
inductive Runs (X : Node M K) : List (Event M) → LogStore M K → Prop
  | start {s} : Installed X s → Runs X [] s
  | finished {events s op cut s'} : Runs X events s → Admissible X s op →
      execute X op cut s = .ok (s', true) → Runs X (events ++ [.operation op true]) s'
  | crashed {events s op cut s' order s''} : Runs X events s → Admissible X s op →
      execute X op cut s = .ok (s', false) → order.Perm s'.rows.headers.entries →
      openStore X order s' = .ok s'' → Runs X (events ++ [.operation op false]) s''
  | reopened {events s order s'} : Runs X events s → order.Perm s.rows.headers.entries →
      openStore X order s = .ok s' → Runs X (events ++ [.reopened]) s'
  | retired {events s id} : Runs X events s → s.boundary = none →
      retiredBoundary X { s with boundary := some id } = .ok (some id) →
      Runs X (events ++ [.retired id]) { s with boundary := some id }
  | controls {events s k} : Runs X events s →
      retiredBoundary X { s with controls := k } = .ok s.boundary →
      Runs X (events ++ [.controls]) { s with controls := k }

/-- What an operation may leave of a log: everything it was for if it returned, and a part of it
if it was cut. -/
def Leaves (log log' : Log M) : Operation M → Bool → Prop
  | .append entries _, true => log' = put Entry.index log entries
  | .append entries _, false => ∃ part, part <:+: entries ∧ log' = put Entry.index log part
  | .localAppend entries, true => log' = put Entry.index log entries
  | .localAppend entries, false => log' = put Entry.index log entries ∨ log' = log
  | .truncate id, true => log' = below id.index log
  | .truncate id, false => ∃ n, id.index ≤ n ∧ log' = below n log
  | .purge id, true => log' = since (id.index + 1) log
  | .purge id, false => ∃ n, n ≤ id.index + 1 ∧ log' = since n log
  | .saveCommitted _, _ => log' = log

inductive History : List (Event M) → Log M → Prop
  | start : History [] fun _ => none
  | operation {events log op finished log'} : History events log →
      Leaves log log' op finished → History (events ++ [.operation op finished]) log'
  | reopened {events log} : History events log → History (events ++ [.reopened]) log
  | retired {events log id} : History events log → History (events ++ [.retired id]) log
  | controls {events log} : History events log → History (events ++ [.controls]) log

def Purged (events : List (Event M)) (i : ℕ) : Prop :=
  ∃ id finished, Event.operation (.purge id) finished ∈ events ∧ i ≤ id.index

/-- Where a body is kept without its header: the store is retired and was so when it purged the
entry, since no retirement was accepted after that. -/
def KeepsBody (events : List (Event M)) (boundary : Option LogId) (i : ℕ) : Prop :=
  boundary.isSome = true ∧ ∃ before id finished after,
    events = before ++ .operation (.purge id) finished :: after ∧ i ≤ id.index ∧
      ∀ bd, .retired bd ∉ after

/-- Where a seed is kept without its header: purged entries and the accepted retirement. -/
def KeepsSeed (events : List (Event M)) (boundary : Option LogId) (i : ℕ) : Prop :=
  Purged events i ∨ ∃ bd, boundary = some bd ∧ bd.index = i

theorem purged_mono (h : Purged evs i) (e : Event M) : Purged (evs ++ [e]) i := by
  obtain ⟨id, finished, hm, hl⟩ := h
  exact ⟨id, finished, mem_append_left _ hm, hl⟩

theorem keepsBody_mono {e : Event M} (he : ∀ bd, e ≠ .retired bd) (h : KeepsBody evs bd i) :
    KeepsBody (evs ++ [e]) bd i := by
  obtain ⟨hb, before, id, finished, after, rfl, hi, hn⟩ := h
  refine ⟨hb, before, id, finished, after ++ [e], by simp, hi, fun b hm => ?_⟩
  rcases mem_append.mp hm with hm | hm
  · exact hn b hm
  · exact he b (mem_singleton.mp hm).symm

variable {X : Node M K} {log : Log M} {s : LogStore M K}

variable {B S : ℕ → Prop}

theorem sound_mono (h : Sound X B S s log) (C T : ℕ → Prop) (hB : ∀ i, B i → C i)
    (hS : ∀ i, S i → T i) : Sound X C T s log := by
  have hr := h.represents
  refine ⟨?_, h.spans, h.boundary, h.mode⟩
  constructor
  · exact hr.indexed
  · exact hr.words
  · exact hr.holds
  · exact hr.absent
  · intro i hi hb
    exact hB i (hr.bodies i hi hb)
  · exact hr.domain
  · intro i hi hs
    exact hS i (hr.seeds i hi hs)

theorem installed_sound (h : Installed X s) (hS : ∀ bd, s.boundary = some bd → S bd.index) :
    Sound X B S s fun _ => none := by
  refine ⟨?_, ?_, h.boundary, h.mode⟩
  · constructor
    · intro i e he
      cases he
    · intro i e he
      cases he
    · intro i e he
      cases he
    · intro i _
      rw [h.headers, h.custodyLog]
      exact ⟨rfl, rfl⟩
    · intro i _ hb
      rw [h.log] at hb
      exact absurd rfl hb
    · intro _ i
      rw [h.log]
      rfl
    intro i _ hs
    obtain ⟨bd, hbd, rfl⟩ := h.seeds i hs
    exact hS bd hbd
  · rw [h.retained]
    exact fun _ => rfl

/-- Every admissible operation goes through on a sound store, wherever it is cut, and comes to
its end when it is not. -/
theorem execute_ok (hs : Sound X B S s log) (ha : Admissible X s op)
    (hbd : ∀ bd, s.boundary = some bd → S bd.index) (hp : ∀ id, op = .purge id →
    (s.boundary.isSome = true → ∀ i, i ≤ id.index → B i) ∧ ∀ i, i ≤ id.index → S i) : ∃ enough,
    ∀ cut, ∃ s' finished log', execute X op cut s = .ok (s', finished) ∧ Sound X B S s' log' ∧
    Leaves log log' op finished ∧ s'.boundary = s.boundary ∧ (enough < cut → finished = true) := by
  cases op with
  | append es commitLocal =>
    refine ⟨es.length, fun cut => ?_⟩
    obtain ⟨s', finished, a, b, hr, hso, hal, hsi, hb⟩ := append_ok hs ha.1
      (fun h => (ha.2 h).1) (fun h => (ha.2 h).2.1) (fun h => (ha.2 h).2.2) cut
    refine ⟨s', finished, _, hr, hso, ?_, hb, hsi⟩
    cases finished with
    | true =>
      change put Entry.index log (slice es a b) = put Entry.index log es
      rw [hal rfl]
    | false => exact ⟨_, slice_infix es a b, rfl⟩
  | localAppend es =>
    refine ⟨1, fun cut => ?_⟩
    obtain ⟨s', finished, log', hr, hso, hl, hb, hsi⟩ :=
      localAppend_ok hs ha cut
    refine ⟨s', finished, log', hr, hso, ?_, hb, hsi⟩
    cases finished with
    | true =>
      rcases hl with h | ⟨_, h⟩
      · exact h
      · cases h
    | false =>
      rcases hl with h | ⟨h, _⟩
      · exact .inl h
      · exact .inr h
  | truncate id =>
    refine ⟨spanSize s.retained, fun cut => ?_⟩
    obtain ⟨s', finished, n, hr, hn, hso, hk, hal, hsi⟩ := truncate_ok hs hbd ha cut
    refine ⟨s', finished, _, hr, hso, ?_, hk.boundary, hsi⟩
    cases finished with
    | true => exact hal rfl
    | false => exact ⟨n, hn, rfl⟩
  | purge id =>
    refine ⟨2 * spanSize s.retained + 1, fun cut => ?_⟩
    obtain ⟨hB, hS⟩ := hp id rfl
    obtain ⟨s', finished, n, hr, hn, hso, hk, hal, hsi⟩ :=
      purge_ok hs ha.1 ha.2 hB hS cut
    refine ⟨s', finished, _, hr, hso, ?_, hk.boundary, hsi⟩
    cases finished with
    | true => exact hal rfl
    | false => exact ⟨n, hn, rfl⟩
  | saveCommitted committed =>
    refine ⟨1, fun cut => ?_⟩
    obtain ⟨s', finished, hr, hso, hb, hsi⟩ := saveCommitted_ok hs ha cut
    refine ⟨s', finished, log, hr, hso, ?_, hb, hsi⟩
    cases finished <;> rfl

theorem openStore_ok {order : List (ℕ × LogHeader M)}
    (h : retainedSpan X.toFormats order = .ok s.retained) : openStore X order s = .ok s := by
  rw [openStore, ok_bind h]
  rfl

theorem openStore_eq (hs : Sound X B S s log) {order : List (ℕ × LogHeader M)}
    (ho : order.Perm s.rows.headers.entries) : openStore X order s = .ok s :=
  openStore_ok (retainedSpan_eq hs.represents hs.spans ho)

theorem sound_later (hs : Sound X (KeepsBody evs s.boundary) (KeepsSeed evs s.boundary) s log)
    {e : Event M} (he : ∀ bd, e ≠ .retired bd) :
    Sound X (KeepsBody (evs ++ [e]) s.boundary) (KeepsSeed (evs ++ [e]) s.boundary) s log := by
  apply sound_mono hs
  · exact fun i h => keepsBody_mono he h
  · exact fun i h => h.imp_left fun hp => purged_mono hp _

theorem execute_sound (hs : Sound X (KeepsBody evs s.boundary) (KeepsSeed evs s.boundary) s log)
    (ha : Admissible X s op) (finished : Bool) : ∃ enough, ∀ cut, ∃ s' done log',
    execute X op cut s = .ok (s', done) ∧
    Sound X (KeepsBody (evs ++ [.operation op finished]) s.boundary)
    (KeepsSeed (evs ++ [.operation op finished]) s.boundary) s' log' ∧ Leaves log log' op done ∧
    s'.boundary = s.boundary ∧ (enough < cut → done = true) := by
  apply execute_ok (sound_later hs (e := .operation op finished) fun _ h => nomatch h) ha
  · intro bd hbd
    exact .inr ⟨bd, hbd, rfl⟩
  rintro id rfl
  constructor
  · intro hb i hi
    exact ⟨hb, evs, id, finished, [], rfl, hi, fun _ => not_mem_nil⟩
  intro i hi
  exact .inl ⟨id, finished, mem_append_right _ mem_cons_self, hi⟩

theorem runs_sound (h : Runs X evs s) : ∃ log, History evs log ∧ Sound X (KeepsBody evs
    s.boundary) (KeepsSeed evs s.boundary) s log := by
  induction h with
  | start hi =>
    refine ⟨_, History.start, installed_sound hi ?_⟩
    intro bd hbd
    exact .inr ⟨bd, hbd, rfl⟩
  | @finished evs s op cut s' _ ha hr ih =>
    obtain ⟨log, hh, hs⟩ := ih
    obtain ⟨_, hal⟩ := execute_sound hs ha true
    obtain ⟨t, done, log', he, hso, hl, hb, _⟩ := hal cut
    rw [hr] at he
    cases he
    rw [hb]
    exact ⟨log', hh.operation hl, hso⟩
  | @crashed evs s op cut s' order s'' _ ha hr ho hop ih =>
    obtain ⟨log, hh, hs⟩ := ih
    obtain ⟨_, hal⟩ := execute_sound hs ha false
    obtain ⟨t, done, log', he, hso, hl, hb, _⟩ := hal cut
    rw [hr] at he
    cases he
    rw [openStore_eq hso ho] at hop
    cases hop
    rw [hb]
    exact ⟨log', hh.operation hl, hso⟩
  | @reopened evs s order s' _ ho hop ih =>
    obtain ⟨log, hh, hs⟩ := ih
    rw [openStore_eq hs ho] at hop
    cases hop
    exact ⟨log, hh.reopened, sound_later hs fun _ h => nomatch h⟩
  | @retired evs s id _ hn hv ih =>
    obtain ⟨log, hh, hs⟩ := ih
    refine ⟨log, hh.retired, ?_⟩
    have hw := sound_mono hs
      (KeepsBody (evs ++ [.retired id]) (some id))
      (KeepsSeed (evs ++ [.retired id]) (some id))
      (fun i h => by rw [hn] at h; exact absurd h.1 Bool.false_ne_true)
      (fun i h => h.elim (fun hp => Or.inl (purged_mono hp _))
        (fun ⟨bd, hbd, _⟩ => by rw [hn] at hbd; cases hbd))
    exact ⟨hw.represents, hw.spans, hv, fun _ => rfl⟩
  | @controls evs s k _ hv ih =>
    obtain ⟨log, hh, hs⟩ := ih
    have hw := sound_later hs (e := .controls) fun _ h => nomatch h
    exact ⟨log, hh.controls, hw.represents, hw.spans, hv, hw.mode⟩

structure CrashConsistent (X : Node M K) (events : List (Event M)) (s : LogStore M K)
    (log : Log M) : Prop where
  /-- The header rows are those of one interval of indices. -/
  interval : ∃ lo hi, ∀ i, s.rows.headers.get i ≠ none ↔ lo ≤ i ∧ i < hi
  headers : ∀ i, s.rows.headers.get i ≠ none ↔ log i ≠ none
  /-- Opening finds the span that is in memory. -/
  span : ∀ order, order.Perm s.rows.headers.entries → openStore X order s = .ok s
  /-- Every header has its body, and its seed if it has one. -/
  bodies : ∀ i e, log i = some e → ∃ h seed, Holds X e h seed (rowsAt s.rows i)
  closedBodies : ∀ i, s.rows.custodyLog.get i ≠ none → s.rows.headers.get i ≠ none
  openBodies : ∀ i, s.rows.log.get i ≠ none →
    s.rows.headers.get i ≠ none ∨ KeepsBody events s.boundary i
  seeds : ∀ i, s.rows.seeds.get i ≠ none →
    s.rows.headers.get i ≠ none ∨ KeepsSeed events s.boundary i
  reads : ∀ bounds, ∃ entries, tryGetLogEntries X bounds s = .ok entries ∧
    Listed log bounds entries
  limitedReads : ∀ start stop, start < stop → log start ≠ none →
    ∃ entries full, limitedGetLogEntries X start stop s = .ok entries ∧ entries ≠ [] ∧
      entries <+: full ∧ Consecutive Entry.index start full ∧
      Listed log (.included start, .excluded stop) full
  /-- A truncation goes above the committed entry or is refused, and keeps its rows. -/
  committed : ∀ id cut s' finished c, truncate X id cut s = .ok (s', finished) →
    s.rows.committed = some c → c.index < id.index ∧ s'.rows.committed = some c ∧
      rowsAt s'.rows c.index = rowsAt s.rows c.index
  /-- No operation fails, wherever it is cut; not cut, it returns; and whatever batch is the
  last, opening finds the span that was in memory after it. -/
  continues : ∀ op, Admissible X s op → ∃ enough, ∀ cut, ∃ s' finished,
    execute X op cut s = .ok (s', finished) ∧ (enough < cut → finished = true) ∧
      ∀ order, order.Perm s'.rows.headers.entries → openStore X order s' = .ok s'

section Consequences

variable {B S : ℕ → Prop}

section

variable (hs : Sound X B S s log)

include hs

theorem headers_iff (i : ℕ) : s.rows.headers.get i ≠ none ↔ log i ≠ none := by
  constructor
  · intro hh hn
    exact hh (hs.represents.absent i hn).1
  intro hl
  obtain ⟨e, he⟩ := Option.ne_none_iff_exists'.mp hl
  obtain ⟨h, seed, hh⟩ := hs.represents.holds i e he
  have hg : s.rows.headers.get i = some h := hh.header
  rw [hg]
  exact Option.some_ne_none h

theorem headers_interval : ∃ lo hi, ∀ i, s.rows.headers.get i ≠ none ↔ lo ≤ i ∧ i < hi := by
  have hsp := hs.spans
  cases hr : s.retained with
  | none =>
    rw [hr] at hsp
    refine ⟨0, 0, fun i => ?_⟩
    rw [headers_iff hs, hsp i]
    simp
  | some span =>
    rw [hr] at hsp
    obtain ⟨p, q, hx, _⟩ := hsp
    refine ⟨p.index, q.index + 1, fun i => ?_⟩
    rw [headers_iff hs, ← Option.isSome_iff_ne_none, hx.filled]
    omega

theorem truncate_committed {id : LogId}
    (hb : ∀ bd, s.boundary = some bd → S bd.index)
    (hr : truncate X id cut s = .ok (s', finished))
    (hc : s.rows.committed = some c) :
    c.index < id.index ∧
    s'.rows.committed = some c ∧
    rowsAt s'.rows c.index = rowsAt s.rows c.index := by
  have ha : c.index < id.index := by
    obtain ⟨_, hch, _⟩ := bind_ok hr
    unfold checkTruncate at hch
    rw [hc] at hch
    exact of_decide_eq_true (check_ok hch)
  have hal : ∀ c', s.rows.committed = some c' → c'.index < id.index := by
    intro c' hc'
    rw [hc] at hc'
    cases hc'
    exact ha
  obtain ⟨t, _, _, he, _, _, hk, _⟩ := truncate_ok hs hb hal cut
  rw [hr] at he
  cases he
  exact ⟨ha, hk.committed.trans hc, hk.rows c.index ha⟩

end

end Consequences

/-- The log store survives cuts: whatever the operations, wherever each was cut and in whatever
order its rows were visited when it was opened again, its rows represent the log that the
operations leave, the span is found again, reads are exact and the next operation goes through.
A seed outlives the header of a purged entry, and so does a body on a retired store. -/
theorem log_store_survives_cuts {events : List (Event M)} (h : Runs X events s) :
    ∃ log, History events log ∧ CrashConsistent X events s log := by
  obtain ⟨log, hh, hs⟩ := runs_sound h
  have hr := hs.represents
  have hbd : ∀ bd, s.boundary = some bd → KeepsSeed events s.boundary bd.index :=
    fun bd hbd => Or.inr ⟨bd, hbd, rfl⟩
  refine ⟨log, hh, ?_⟩
  constructor
  · exact headers_interval hs
  · exact headers_iff hs
  · exact fun order ho => openStore_eq hs ho
  · exact hr.holds
  · intro i hb
    rw [headers_iff hs]
    intro hn
    exact hb (hr.absent i hn).2
  · intro i hb
    rw [headers_iff hs]
    by_cases hn : log i = none
    · exact .inr (hr.bodies i hn hb)
    · exact .inl hn
  · intro i hse
    rw [headers_iff hs]
    by_cases hn : log i = none
    · exact .inr (hr.seeds i hn hse)
    · exact .inl hn
  · exact fun bounds => tryGetLogEntries_ok hr hs.spans bounds
  · intro start stop hl hst
    exact limitedGetLogEntries_ok hr hs.spans hl (Option.isSome_iff_ne_none.mpr hst)
  · intro id cut s' finished c hru hc
    exact truncate_committed hs hbd hru hc
  intro op ha
  obtain ⟨enough, hal⟩ := execute_sound hs ha true
  refine ⟨enough, fun cut => ?_⟩
  obtain ⟨s', finished, log', he, hso, _, _, hsi⟩ := hal cut
  exact ⟨s', finished, he, hsi, fun order ho => openStore_eq hso ho⟩

instance encodableByte : Encodable UInt8 :=
  Encodable.ofLeftInverse UInt8.toNat UInt8.ofNat fun _ => UInt8.ofNat_toNat

abbrev PayloadParts := Bool ⊕ (Bytes ⊕ (Bytes × Bytes) ⊕ Bytes)

def payloadParts : EntryPayload Unit → PayloadParts
  | .blank => .inl false
  | .membership _ => .inl true
  | .normal (.application bytes) => .inr (.inl bytes)
  | .normal (.retirement application seed) => .inr (.inr (.inl (application, seed)))
  | .normal (.custody bytes) => .inr (.inr (.inr bytes))

def payloadOf : PayloadParts → EntryPayload Unit
  | .inl false => .blank
  | .inl true => .membership ()
  | .inr (.inl bytes) => .normal (.application bytes)
  | .inr (.inr (.inl (application, seed))) => .normal (.retirement application seed)
  | .inr (.inr (.inr bytes)) => .normal (.custody bytes)

instance encodableEntry : Encodable (Entry Unit) := by
  refine Encodable.ofLeftInverse
    (fun e => (e.logId.term, e.logId.node, e.logId.index, payloadParts e.payload, e.initialization))
    (fun x => ⟨⟨x.1, x.2.1, x.2.2.1⟩, payloadOf x.2.2.2.1, x.2.2.2.2⟩) ?_
  rintro ⟨id, payload, i⟩
  rcases payload with _ | _ | _ | _ | _ <;> rfl

def wordBytes (n : ℕ) : Bytes := (range 8).map fun i => UInt8.ofNat (n / 256 ^ i)

/-- Entries are written as the bytes of their numbers, and a header as its digest. -/
def plainFormats : Formats Unit where
  postcard entry := (Nat.digits 256 (Encodable.encode entry)).map UInt8.ofNat
  fromPostcard bytes :=
    demand "no entry" (Encodable.decode (Nat.ofDigits 256 (bytes.map UInt8.toNat)))
  sha256 bytes := digestText (bytes.foldr (fun b n => 257 * n + b.toNat + 1) 0)
  headerJson header := header.entrySha256.toList.map Char.toUInt8
  seedJson record := record.header.entrySha256.toList.map Char.toUInt8 ++ record.seed
  logIdJson id := wordBytes id.term ++ wordBytes id.node ++ wordBytes id.index
  committedJson id := id.elim [] fun id => wordBytes id.term ++ wordBytes id.index
  decodeCustody _ := pure ()
  decodeSeed _ seed := pure seed
  decodeInitialization _ := pure ()
  fromPostcard_postcard entry := by
    have hb : ∀ d ∈ Nat.digits 256 (Encodable.encode entry),
        (UInt8.toNat ∘ UInt8.ofNat) d = id d :=
      fun d hd => UInt8.toNat_ofNat_of_lt (Nat.digits_lt_base (by decide) hd)
    rw [map_map, map_congr_left hb, map_id, Nat.ofDigits_digits]
    exact demand_some (Encodable.encodek entry)
  sha256_valid _ := digestText_valid _
  logIdJson_small _ _ := by simp [wordBytes]
  committedJson_small id _ := by cases id <;> simp [wordBytes]

def plainNode : Node Unit Unit where
  toFormats := plainFormats
  serving := true
  bindInput _ := pure ()
  validateEntry _ _ := pure ()
  bootstrapSha256 _ := some ""
  storageBindingSha256 _ := ""
  purgeReady _ := pure ()
  validateRetiredBoundary _ _ boundary record :=
    check (record.header.logId == boundary) "retired boundary differs from its seed"

def emptyStore : LogStore Unit Unit :=
  ⟨⟨.empty, .empty, .empty, .empty, none, none⟩, none, (), none⟩

def sampleEntries : List (Entry Unit) :=
  [⟨⟨1, 1, 0⟩, .normal (.application [7]), none⟩,
    ⟨⟨1, 1, 1⟩, .normal (.retirement [8] [9]), none⟩,
    ⟨⟨1, 1, 2⟩, .normal (.custody [5]), none⟩]

def leftBy (op : Operation Unit) (cut : ℕ) (s : LogStore Unit Unit) : LogStore Unit Unit :=
  ((execute plainNode op cut s).toOption.map Prod.fst).getD s

def logged : LogStore Unit Unit := leftBy (.append sampleEntries false) 9 emptyStore

def retired : LogStore Unit Unit := { logged with boundary := some ⟨1, 1, 1⟩ }

/-- The purge is cut after the batch that removes the first two entries. -/
def purged : LogStore Unit Unit := leftBy (.purge ⟨1, 1, 1⟩) 1 retired

def sampleEvents : List (Event Unit) :=
  [.operation (.append sampleEntries false) true, .retired ⟨1, 1, 1⟩,
    .operation (.purge ⟨1, 1, 1⟩) false]

theorem execute_leftBy {s : LogStore Unit Unit}
    (h : (execute plainNode op cut s).map Prod.snd = .ok finished) :
    execute plainNode op cut s = .ok (leftBy op cut s, finished) := by
  unfold leftBy
  cases he : execute plainNode op cut s with
  | error e =>
    rw [he] at h
    cases h
  | ok r =>
    rw [he] at h
    cases h
    rfl

theorem sample_writes : ∀ e ∈ sampleEntries,
    e.logId.term < wordSize ∧ e.logId.node < wordSize ∧ e.logId.index < wordSize ∧
    bindApplication plainNode e = .ok () ∧
    (do let x ← LogHeader.build plainFormats e (encodeEntry plainFormats e)
        x.1.validate plainFormats) = .ok () ∧
    (∀ op ∈ (writesOf plainNode () e).1.toList ++ ((writesOf plainNode () e).2 ++ []),
      op.valueLength plainFormats ≤ 256) ∧
    ((writesOf plainNode () e).1.toList ++ ((writesOf plainNode () e).2 ++ [])).length ≤ 4 := by
  decide +kernel

theorem sample_appendable : Appendable plainNode emptyStore sampleEntries [] := by
  constructor
  · intro e he
    obtain ⟨ht, hn, hi, hb, hv, _⟩ := sample_writes e he
    obtain ⟨⟨h, seed⟩, hh, hv⟩ := bind_ok hv
    exact ⟨⟨ht, hn, hi⟩, hb, rfl, h, seed, hh, hv, fun _ => Option.some_ne_none _, .inl rfl⟩
  · intro e he
    obtain ⟨_, _, _, _, _, hv, hl⟩ := sample_writes e he
    exact fits_small hv (hl.trans (by decide))
  · refine ⟨0, fun j e he => ?_⟩
    rcases j with _ | _ | _ | j <;> cases he <;> rfl
  · exact .inr (.inl fun _ => rfl)
  · intro bd hb
    cases hb
  · intro bd hb
    cases hb

theorem sample_steps :
    (execute plainNode (.append sampleEntries false) 9 emptyStore).map Prod.snd = .ok true ∧
    logged.boundary = none ∧
    retiredBoundary plainNode retired = .ok (some ⟨1, 1, 1⟩) ∧
    (execute plainNode (.purge ⟨1, 1, 1⟩) 1 retired).map Prod.snd = .ok false ∧
    retainedSpan plainFormats purged.rows.headers.entries = .ok purged.retained ∧
    purged.rows.headers.keys = [2] ∧ purged.rows.seeds.keys = [1] ∧
    purged.rows.log.keys = [0, 1] := by
  decide +kernel

theorem sample_runs : Runs plainNode sampleEvents purged := by
  obtain ⟨ha, hno, hb, hp, hr, _⟩ := sample_steps
  have hi : Installed plainNode emptyStore :=
    ⟨rfl, rfl, rfl, fun i hi => absurd rfl hi, rfl, rfl, fun h => nomatch h⟩
  have had : Admissible plainNode emptyStore (.append sampleEntries false) :=
    ⟨sample_appendable, fun h => nomatch h⟩
  have hl := Runs.finished (Runs.start hi) had (execute_leftBy ha)
  have hpu : Admissible plainNode retired (.purge ⟨1, 1, 1⟩) :=
    ⟨⟨by decide, by decide, by decide⟩, rfl⟩
  have hp : execute plainNode (.purge ⟨1, 1, 1⟩) 1 retired = .ok (purged, false) := execute_leftBy hp
  have ho := openStore_ok (X := plainNode) hr
  exact Runs.crashed (Runs.retired hl hno hb) hpu hp (Perm.refl _) ho

/-- Rows outlive their headers: a purge leaves the seed of the retirement and, after it was
accepted, the application bodies. -/
theorem purged_rows_without_header : ∃ s, Runs plainNode sampleEvents s ∧
    s.rows.headers.keys = [2] ∧ s.rows.seeds.keys = [1] ∧ s.rows.log.keys = [0, 1] :=
  ⟨purged, sample_runs, sample_steps.2.2.2.2.2⟩

theorem retirement_survives : ∃ log, History sampleEvents log ∧
    CrashConsistent plainNode sampleEvents purged log ∧ purged.rows.headers.keys = [2] := by
  obtain ⟨log, hh, hc⟩ := log_store_survives_cuts sample_runs
  exact ⟨log, hh, hc, sample_steps.2.2.2.2.2.1⟩

end RaftLogCrash
