import Kasumi.FallibleSteps
import Kasumi.JournalClient

/-! What the documents of an entry are, and that the checks of a reader pass on them. -/
namespace JournalStorage

open TenantTypes JournalRecords JournalClient JsonValue FallibleSteps List

variable {F : Serde} {condition : Bool} {error : JournalError} {p q : PhaseKind}
  {es : List JournalEntry} {i : ℕ}

theorem failWhen_ok (h : failWhen condition error = .ok u) : condition = false := by
  cases condition with
  | false => rfl
  | true => cases h

theorem failWhen_false (h : condition = false) : failWhen condition error = .ok () := by
  rw [h]
  rfl

theorem orInconsistent_some (a : α) : orInconsistent (some a) = .ok a := rfl

theorem slug_injective (h : p.slug = q.slug) : p = q := by
  revert h
  cases p <;> cases q <;> decide

theorem slash_notMem_slug (p : PhaseKind) : '/' ∉ p.slug.toList := by
  cases p <;> decide

theorem documentId_injective
    (h : documentId F.toFormats u p = documentId F.toFormats u q) : p = q := by
  apply slug_injective
  have hl := congrArg String.toList h
  simp only [documentId, String.toList_append] at hl
  exact String.toList_inj.mp (append_cancel_left hl)

theorem chunkId_ne_documentId (u : Uuid) (p q : PhaseKind) (index : ℕ) :
    chunkId F.toFormats u p index ≠ documentId F.toFormats u q := by
  intro h
  have hl := congrArg String.toList h
  simp only [chunkId, documentId, String.toList_append, append_assoc] at hl
  have hs := append_cancel_left (append_cancel_left (append_cancel_left hl))
  apply slash_notMem_slug q
  rw [← hs]
  exact mem_append_right _ (mem_append_left _ (by decide))

theorem chunkBytes_eq : chunkBytes = 131072 := rfl

theorem chunkCount_lt (h : i < chunkCount bs) : i * chunkBytes < bs := by
  unfold chunkCount at h
  rw [chunkBytes_eq] at *
  omega

theorem le_chunkCount (bs : ℕ) : bs ≤ chunkCount bs * chunkBytes := by
  unfold chunkCount
  rw [chunkBytes_eq]
  omega

theorem length_payloadChunk (payload : List UInt8) (i : ℕ) :
    (payloadChunk payload i).length = min chunkBytes (payload.length - i * chunkBytes) := by
  rw [payloadChunk, length_take, length_drop]

theorem take_payloadChunk (payload : List UInt8) (i : ℕ) : payload.take (i * chunkBytes) ++
    payloadChunk payload i = payload.take ((i + 1) * chunkBytes) := by
  rw [payloadChunk, Nat.add_one_mul, take_add]

theorem take_chunkCount (payload : List UInt8) :
    payload.take (chunkCount payload.length * chunkBytes) = payload :=
  take_of_length_le (le_chunkCount payload.length)

theorem sha256_digest (bs : List UInt8) (field : String) :
    sha256 (digest F.toFormats bs) field = .ok () := by
  rw [sha256, digest, HexText.decode_encode]
  apply failWhen_false
  simp [F.sha256_length]

theorem exactHex_encode (field : String) (hn : bs ≠ [])
    (hl : bs.length ≤ most) : exactHex (HexText.encode bs) most field = .ok bs := by
  have hp : 0 < bs.length := length_pos_of_ne_nil hn
  have hs : ((HexText.encode bs).isEmpty ||
      decide ((HexText.encode bs).utf8ByteSize > most * 2)) = false := by
    rw [Bool.or_eq_false_iff]
    constructor
    · rw [Bool.eq_false_iff]
      intro he
      have hz : (HexText.encode bs).utf8ByteSize = 0 := by
        rw [String.isEmpty_iff.mp he]
        rfl
      rw [HexText.utf8ByteSize_encode] at hz
      omega
    rw [HexText.utf8ByteSize_encode]
    simp only [decide_eq_false_iff_not]
    omega
  have hb : (bs.isEmpty || decide (bs.length > most) ||
      HexText.encode bs != HexText.encode bs) = false := by
    simp [hn, hl]
  rw [exactHex, ok_bind (failWhen_false hs), HexText.decode_encode]
  change (failWhen _ _ >>= fun _ => pure bs) = _
  rw [ok_bind (failWhen_false hb)]
  rfl

section Chunks

variable {entry : JournalEntry} {payload : List UInt8}

theorem checkChunk_stored {id : String} (hi : i < chunkCount payload.length)
    (hco : chunkCount payload.length ≤ maxChunks) (hv : 0 < version) :
    checkChunk F (chunkManifest F.toFormats entry payload) i
      (some ⟨id, version, valueOf ((chunkDocument F.toFormats entry payload i).toJson F.toFormats)⟩)
      id = .ok (payloadChunk payload i) := by
  set doc := chunkDocument F.toFormats entry payload i with hdoc
  have hw : maxChunks < wordSize := by decide
  have hc : ChunkDocument.ofValue F.toFormats (valueOf (doc.toJson F.toFormats)) = some doc :=
    ChunkDocument.ofValue_toJson F.toFormats (by change i < wordSize; omega)
      (by change chunkCount payload.length < wordSize; omega)
  have hle := length_payloadChunk payload i
  have hs := chunkCount_lt hi
  have hp : 0 < chunkBytes := by decide
  have hne : payloadChunk payload i ≠ [] := by
    apply ne_nil_of_length_pos
    omega
  -- only the last chunk may be shorter than the others
  have hf : (digest F.toFormats (payloadChunk payload i) != doc.dataSha256 || (doc.index + 1 <
          doc.chunks &&
        (payloadChunk payload i).length != chunkBytes)) = false := by
    refine Bool.or_eq_false_iff.mpr ⟨bne_self_eq_false _, Bool.and_eq_false_iff.mpr ?_⟩
    by_cases hl : i + 1 < chunkCount payload.length
    · right
      have hn := chunkCount_lt hl
      rw [Nat.add_one_mul] at hn
      simp only [bne_eq_false_iff_eq]
      omega
    · left
      exact decide_eq_false hl
  have hh : exactHex doc.dataHex chunkBytes
      "journal chunk" = .ok (payloadChunk payload i) := exactHex_encode _ hne (by omega)
  rw [checkChunk, ok_bind (orInconsistent_some _),
    ok_bind (failWhen_false (by simp; omega)), hc, ok_bind (orInconsistent_some _),
    ok_bind (failWhen_false (by simp [hdoc, chunkDocument, chunkManifest, sha256_digest,
      Except.toOption])), hh, Except.toOption, ok_bind (orInconsistent_some _),
    ok_bind (failWhen_false hf)]
  rfl

theorem takeChunks_stored (entry : JournalEntry) (hc : chunkCount payload.length ≤ maxChunks)
    (read : ℕ → Option Document × String) (n : ℕ) : ∀ start, start + n ≤ chunkCount payload.length →
      (∀ i, start ≤ i → i < start + n → ∃ version, 0 < version ∧ (read i).1 = some ⟨(read i).2,
        version, valueOf ((chunkDocument F.toFormats entry payload i).toJson F.toFormats)⟩) →
      takeChunks F (chunkManifest F.toFormats entry payload) start
        ((List.range' start n).map read) (payload.take (start * chunkBytes)) =
          .ok (payload.take ((start + n) * chunkBytes)) := by
  induction n with
  | zero => exact fun start _ _ => rfl
  | succ n ih =>
    intro start hl hr
    obtain ⟨version, hv, hd⟩ := hr start (Nat.le_refl _) (by omega)
    rw [range'_succ, map_cons, ← Prod.mk.eta (p := read start), hd, takeChunks,
      ok_bind (checkChunk_stored (by omega) hc hv), take_payloadChunk,
      ih (start + 1) (by omega) fun i hi hlt => hr i (by omega) (by omega)]
    congr 3
    omega

theorem decodePayload_toVec (entry : JournalEntry) : decodePayload F (chunkManifest F.toFormats
    entry (toVec F.toFormats entry)) entry.phase.kind (toVec F.toFormats entry) = .ok entry := by
  rw [decodePayload, ok_bind (failWhen_false (by simp [chunkManifest])), F.fromSlice_toVec,
    ok_bind (orInconsistent_some _),
    ok_bind (failWhen_false (by simp [chunkManifest]))]
  rfl

theorem manifest_ofValue (hc : chunkCount payload.length ≤ maxChunks) :
    ChunkManifest.ofValue F.toFormats
      (valueOf ((chunkManifest F.toFormats entry payload).toJson F.toFormats)) =
        some (chunkManifest F.toFormats entry payload) := by
  have hl := le_chunkCount payload.length
  have hb : payload.length ≤ maxChunks * chunkBytes :=
    Nat.le_trans hl (Nat.mul_le_mul_right _ hc)
  have hw : maxChunks * chunkBytes < wordSize := by decide
  have hch : maxChunks < wordSize := by decide
  exact ChunkManifest.ofValue_toJson F.toFormats (by change payload.length < wordSize; omega)
    (by change chunkCount payload.length < wordSize; omega)

end Chunks

theorem boundedBody_ok (h : boundedBody record = .ok body) : body = valueOf record := by
  obtain ⟨-, -, hb⟩ := bind_ok h
  exact (Except.ok.inj hb).symm

theorem mapM_ok {β : Type} {f : α → Except JournalError β} {g : α → β} (hf : ∀ a b, f a = .ok b →
    b = g a) {l : List α} {bs : List β} (h : l.mapM f = .ok bs) : bs = l.map g := by
  induction l generalizing bs with
  | nil => exact (Except.ok.inj h).symm
  | cons a l ih =>
    rw [mapM_cons] at h
    obtain ⟨b, hb, h⟩ := bind_ok h
    obtain ⟨rest, hr, h⟩ := bind_ok h
    rw [← Except.ok.inj h, map_cons, hf a b hb, ih hr]

theorem chunkedStorage_ok {stored : MutationBatch × List (String × Value)}
    (h : chunkedStorage F.toFormats entry col payload = .ok stored) :
    chunkCount payload.length ≠ 0 ∧ chunkCount payload.length ≤ maxChunks ∧
      stored.1 = putBatch col (entry.documentId F.toFormats)
        (valueOf ((chunkManifest F.toFormats entry payload).toJson F.toFormats)) ∧
      stored.2 = (List.range (chunkCount payload.length)).map fun i =>
        (chunkId F.toFormats entry.identity.operationId entry.phase.kind i,
          valueOf ((chunkDocument F.toFormats entry payload i).toJson F.toFormats)) := by
  obtain ⟨_, hc, h⟩ := bind_ok h
  obtain ⟨mf, hm, h⟩ := bind_ok h
  obtain ⟨docs, hd, h⟩ := bind_ok h
  obtain rfl := Except.ok.inj h
  have hbo := failWhen_ok hc
  simp only [Bool.or_eq_false_iff, beq_eq_false_iff_ne, decide_eq_false_iff_not] at hbo
  refine ⟨hbo.1, by omega, by rw [boundedBody_ok hm], ?_⟩
  refine mapM_ok (fun i b hb => ?_) hd
  obtain ⟨body, hbod, hb⟩ := bind_ok hb
  rw [← Except.ok.inj hb, boundedBody_ok hbod]

theorem mutation_ok {entry : JournalEntry} (h : entry.mutation F.toFormats col = .ok batch) :
    batch = putBatch col (entry.documentId F.toFormats) (valueOf (entry.toJson F.toFormats)) := by
  replace h := then_ok h
  replace h := then_ok h
  replace h := then_ok h
  exact (Except.ok.inj h).symm

theorem member_entry (entry : JournalEntry) :
    member (valueOf (entry.toJson F.toFormats)) "payload_sha256" = none := by
  simp [JournalEntry.toJson, List.lookup]

theorem member_manifest (mf : ChunkManifest) :
    (member (valueOf (mf.toJson F.toFormats)) "payload_sha256").isSome = true := by
  simp [ChunkManifest.toJson, List.lookup]

theorem accepted_kind (h : validateSequence F.toFormats es = .ok ())
    (he : es[i]? = some entry) : PhaseKind.order[i]? = some entry.phase.kind := by
  obtain ⟨_, hl, h⟩ := bind_ok h
  obtain ⟨_, hk, -⟩ := bind_ok h
  have hle := failWhen_ok hl
  have ha := failWhen_ok hk
  simp only [decide_eq_false_iff_not, Nat.not_lt] at hle
  have hi : i < es.length := (List.getElem?_eq_some_iff.mp he).1
  have hz : (es.zip PhaseKind.order)[i]? = some (entry, PhaseKind.order.get ⟨i, by omega⟩) := by
    rw [getElem?_zip_eq_some]
    exact ⟨he, getElem?_eq_getElem (by omega)⟩
  rw [any_eq_false] at ha
  have hen := ha _ (mem_of_getElem? hz)
  simp only [bne_iff_ne, ne_eq, Decidable.not_not] at hen
  rw [getElem?_eq_getElem (by omega), hen]
  rfl

theorem accepted_length (h : validateSequence F.toFormats es = .ok ()) :
    es.length ≤ PhaseKind.order.length := by
  obtain ⟨_, hl, -⟩ := bind_ok h
  have hle := failWhen_ok hl
  simpa using hle

theorem order_index (phase : PhaseKind) : PhaseKind.order[phase.index]? = some phase := by
  cases phase <;> rfl

theorem index_of_order (h : PhaseKind.order[i]? = some phase) : phase.index = i := by
  obtain ⟨hi, rfl⟩ := List.getElem?_eq_some_iff.mp h
  have hn : PhaseKind.order.Nodup := by decide
  exact hn.idxOf_getElem i hi

end JournalStorage
