import Kasumi.SegmentReplay

/-! A log as its records: the bytes a segment holds for them, and the state in which replay
leaves each record it reads intact. -/
namespace SegmentLayout

open ByteFields MediaFormat SegmentRecords SegmentReplay List
open DirectoryPages (CoreError segmentHeaderBytes recordHeaderBytes)

/-- A record as the writer lays it out; its header is fixed by its position. -/
structure Rec where
  kind : RecordKind
  batchSeq : ℕ
  baseSeq : ℕ
  body : List Byte
  deriving DecidableEq

namespace Rec

def head (r : Rec) : RecordHead := ⟨r.kind, r.batchSeq, r.baseSeq, r.body.length, crc32c r.body⟩

def len (r : Rec) : ℕ := 36 + r.body.length

def bytes (gid segmentId offset : ℕ) (r : Rec) : List Byte :=
  recordHeader gid ⟨segmentId, offset⟩ r.head ++ r.body

@[simp] theorem length_bytes (gid sid off : ℕ) (r : Rec) :
    (r.bytes gid sid off).length = r.len := by
  simp [bytes, len]

end Rec

def recsLen (recs : List Rec) : ℕ := (recs.map Rec.len).sum

@[simp] theorem recsLen_nil : recsLen [] = 0 := rfl

@[simp] theorem recsLen_cons (r : Rec) (recs : List Rec) :
    recsLen (r :: recs) = r.len + recsLen recs := by simp [recsLen]

@[simp] theorem recsLen_append (a b : List Rec) : recsLen (a ++ b) = recsLen a + recsLen b := by
  simp [recsLen]

/-- The bytes of records laid out one after another from an offset of a segment. -/
def recsBytes (gid segmentId : ℕ) : (offset : ℕ) → List Rec → List Byte
  | _, [] => []
  | offset, r :: recs => r.bytes gid segmentId offset ++ recsBytes gid segmentId (offset + r.len) recs

@[simp] theorem length_recsBytes (gid sid off : ℕ) (recs : List Rec) :
    (recsBytes gid sid off recs).length = recsLen recs := by
  induction recs generalizing off with
  | nil => rfl
  | cons r recs ih => simp [recsBytes, ih]

theorem recsBytes_append (gid sid off : ℕ) (a b : List Rec) : recsBytes gid sid off (a ++ b) =
      recsBytes gid sid off a ++ recsBytes gid sid (off + recsLen a) b := by
  induction a generalizing off with
  | nil => simp [recsBytes]
  | cons r a ih => simp [recsBytes, ih, Nat.add_assoc]

def segmentImage (gid segmentId : ℕ) (recs : List Rec) : List Byte :=
  segmentHeader gid segmentId ++ recsBytes gid segmentId segmentHeaderBytes recs

@[simp] theorem length_segmentImage (gid sid : ℕ) (recs : List Rec) :
    (segmentImage gid sid recs).length = segmentHeaderBytes + recsLen recs := by
  simp [segmentImage, segmentHeaderBytes]

theorem segmentImage_append (gid sid : ℕ) (a b : List Rec) :
    segmentImage gid sid (a ++ b) = segmentImage gid sid a ++
      recsBytes gid sid (segmentHeaderBytes + recsLen a) b := by
  simp [segmentImage, recsBytes_append]

/-! ## Reading intact records -/

inductive Item where
  | record (r : Rec)
  | roll

/-- Replay at a position of the log; `resume` is the append position of this segment so far. -/
structure Cursor where
  segmentId : ℕ
  offset : ℕ
  resume : ℕ
  replay : Replay

variable (sha : Sha256) (gid : ℕ) (policy : ReplayPolicy)

/-- What `Replay.record` does with a record that lies intact at the cursor. -/
def Cursor.read (c : Cursor) (r : Rec) : Except CoreError (Scanned × Replay) := do
  c.replay.follows policy r.head
  c.replay.scan sha gid policy c.segmentId c.offset
    (recordHeader gid ⟨c.segmentId, c.offset⟩ r.head) r.head r.body

def Cursor.next (c : Cursor) : Cursor :=
  ⟨c.segmentId + 1, segmentHeaderBytes, segmentHeaderBytes,
    { c.replay with segmentAttempt := none }⟩

def Cursor.step (c : Cursor) : Item → Option Cursor
  | .roll => some c.next
  | .record r =>
    match c.read sha gid policy r with
    | .ok (.record, replay) => some ⟨c.segmentId, c.offset + r.len, c.resume, replay⟩
    | .ok (.commit, replay) => some ⟨c.segmentId, c.offset + r.len, c.offset + r.len, replay⟩
    | _ => none

def Cursor.run (c : Cursor) (items : List Item) : Option Cursor :=
  items.foldlM (Cursor.step sha gid policy) c

variable {sha gid policy} {c c' : Cursor} {r : Rec} {recs : List Rec} {file pre post : List Byte}

@[simp] theorem run_nil (c : Cursor) : c.run sha gid policy [] = some c := rfl

theorem run_cons : c.run sha gid policy (item :: items) = some c'
    ↔ ∃ d, c.step sha gid policy item = some d ∧ d.run sha gid policy items = some c' := by
  simp [Cursor.run, foldlM_cons, Option.bind_eq_some_iff]

theorem run_append : c.run sha gid policy (a ++ b) = some c' ↔ ∃ d, c.run sha gid
    policy a = some d ∧ d.run sha gid policy b = some c' := by
  simp [Cursor.run, foldlM_append, Option.bind_eq_some_iff]

theorem step_position (h : c.step sha gid policy (.record r) = some c') :
    c'.segmentId = c.segmentId ∧ c'.offset = c.offset + r.len := by
  simp only [Cursor.step] at h
  split at h
  · cases h; exact ⟨rfl, rfl⟩
  · cases h; exact ⟨rfl, rfl⟩
  · cases h

theorem run_position (h : c.run sha gid policy (recs.map .record) = some c') :
    c'.segmentId = c.segmentId ∧ c'.offset = c.offset + recsLen recs := by
  induction recs generalizing c with
  | nil => cases h; exact ⟨rfl, by simp⟩
  | cons r recs ih =>
    obtain ⟨d, hd, hr⟩ := run_cons.mp h
    obtain ⟨hs, ho⟩ := step_position hd
    obtain ⟨hs', ho'⟩ := ih hr
    refine ⟨hs'.trans hs, ?_⟩
    rw [ho', ho, recsLen_cons]
    omega

theorem record_intact (hw : r.head.Written)
    (hf : file = pre ++ r.bytes gid c.segmentId c.offset ++ post) (hp : pre.length = c.offset) :
    c.replay.record sha gid policy file c.segmentId c.offset =
      (c.read sha gid policy r).map fun p => (p.1, p.2, c.offset + r.len) := by
  have hl : file.length = c.offset + (36 + r.body.length) + post.length := by
    simp [hf, hp, Rec.len]
    omega
  have hh : slice c.offset (c.offset + recordHeaderBytes) file =
      recordHeader gid ⟨c.segmentId, c.offset⟩ r.head := by
    have hf' : file = pre ++ recordHeader gid ⟨c.segmentId, c.offset⟩ r.head ++
        (r.body ++ post) := by simp [hf, Rec.bytes]
    rw [hf']
    exact slice_middle hp (by simp [recordHeaderBytes])
  have hb : slice (c.offset + recordHeaderBytes)
      (c.offset + recordHeaderBytes + r.head.bodyLen) file = r.body := by
    have hf' : file = (pre ++ recordHeader gid ⟨c.segmentId, c.offset⟩ r.head) ++ r.body ++
        post := by simp [hf, Rec.bytes]
    rw [hf']
    exact slice_middle (by simp [hp, recordHeaderBytes]) rfl
  have h1 : ¬ file.length - c.offset < recordHeaderBytes := by
    simp only [recordHeaderBytes]; omega
  have h2 : ¬ r.head.bodyLen > file.length - (c.offset + recordHeaderBytes) := by
    simp only [recordHeaderBytes, Rec.head]; omega
  have h3 : c.offset + recordHeaderBytes + r.head.bodyLen = c.offset + r.len := by
    simp [recordHeaderBytes, Rec.head, Rec.len, Nat.add_assoc]
  rw [h3] at hb
  simp only [Replay.record, h1, if_false, hh, decodeRecordHeader_header _ _ hw, bind,
    Except.bind, Cursor.read]
  rcases c.replay.follows policy r.head with _ | _
  · rfl
  simp only [h2, if_false, hb, h3]
  rcases c.replay.scan sha gid policy c.segmentId c.offset
    (recordHeader gid ⟨c.segmentId, c.offset⟩ r.head) r.head r.body with _ | ⟨s, q⟩ <;> rfl

theorem scanRecords_intact (h : c.run sha gid policy (recs.map .record) = some c')
    (hw : ∀ r ∈ recs, r.head.Written)
    (hf : file = pre ++ recsBytes gid c.segmentId c.offset recs ++ post)
    (hp : pre.length = c.offset) (hfue : file.length ≤ c.offset + fuel) :
    ∃ fuel', file.length ≤ c'.offset + fuel' ∧
      Replay.scanRecords sha gid policy file c.segmentId fuel c.replay c.offset c.resume =
        Replay.scanRecords sha gid policy file c'.segmentId fuel' c'.replay c'.offset
          c'.resume := by
  induction recs generalizing c pre fuel with
  | nil => cases h; exact ⟨fuel, hfue, rfl⟩
  | cons r recs ih =>
    obtain ⟨d, hd, hr⟩ := run_cons.mp h
    have hle : file.length = c.offset + r.len + recsLen recs + post.length := by
      simp [hf, hp]
      omega
    have hpo : 0 < r.len := by simp [Rec.len]
    obtain ⟨fuel, rfl⟩ : ∃ n, fuel = n + 1 := ⟨fuel - 1, by omega⟩
    have hh : file = pre ++ r.bytes gid c.segmentId c.offset ++
        (recsBytes gid c.segmentId (c.offset + r.len) recs ++ post) := by simp [hf, recsBytes]
    have hre : c.replay.record sha gid policy file c.segmentId c.offset = _ :=
      record_intact (hw r mem_cons_self) hh hp
    obtain ⟨hds, hdo⟩ := step_position hd
    have hm : ¬ file.length ≤ c.offset := by omega
    have ht : file = (pre ++ r.bytes gid c.segmentId c.offset) ++
        recsBytes gid d.segmentId d.offset recs ++ post := by
      rw [hh, hds, hdo]
      simp
    have hpr : (pre ++ r.bytes gid c.segmentId c.offset).length = d.offset := by simp [hp, hdo]
    have hl : file.length ≤ d.offset + fuel := by omega
    obtain ⟨fuel', hfu, he⟩ :=
      ih hr (fun q hq => hw q (mem_cons_of_mem _ hq)) ht hpr hl
    refine ⟨fuel', hfu, ?_⟩
    rw [← he, hds]
    simp only [Cursor.step] at hd
    simp only [Replay.scanRecords, hm, if_false, hre]
    split at hd
    case h_1 q hq => cases hd; simp only [hq]; rfl
    case h_2 q hq => cases hd; simp only [hq]; rfl
    case h_3 => cases hd

end SegmentLayout
