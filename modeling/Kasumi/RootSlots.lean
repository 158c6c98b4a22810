import Kasumi.RootPublication

/-! What two slots may hold between publications. A slot image is intact, or torn between
contents the slot was given; the newest root is intact in one slot, and the other slot holds
the same root, its predecessor, or a torn image. Selection reads exactly that root. -/
namespace RootSlots

open ByteFields Function
open RootCodec
open RootFormat
open RootPublication

/-- A slot write that did not complete leaves the old image, the new one, or a mixture that
the checksum rejects. -/
def tear (old new m : List Byte) : Prop :=
  m = old ∨ m = new ∨ Mixture old new m ∧ ChecksumBad m

theorem tear_laws : OrderedWrites.Tears tear :=
  ⟨fun _ _ => .inl rfl, fun _ _ => .inr (.inl rfl)⟩

structure Good (s : Superblock) : Prop where
  typed : Typed s
  ok : s.invariantViolation = none
  source : SourceCommitted s

theorem Good.decode (h : Good s) : decodeSlot (slotImage s) = .ok (.valid s) :=
  decodeSlot_image h.typed h.ok h.source

theorem source_of_successor (hs : SourceCommitted prev)
    (hc : ∀ c, prev.directory = some c → c.root.generation ≠ 0) (h : isSuccessor prev next)
    (hi : next.invariantViolation = none) : SourceCommitted next := by
  intro x hx
  have hph := ((invariants_of_ok hi).source x hx).1
  have hcs : compactionSuccessor prev next = true := by
    simp only [isSuccessor, Bool.and_eq_true] at h
    exact h.1.2
  by_cases he : prev.compaction = next.compaction
  · apply hs x
    rw [he]; exact hx
  by_cases hf : prev.compaction.sameProgressFrame next.compaction = true
  · apply hs x
    simp only [CompactionRecord.sameProgressFrame, Bool.and_eq_true, beq_iff_eq] at hf
    rw [hf.2]; exact hx
  -- Only the start of a cycle installs a worklist, and it is the committed directory.
  simp only [compactionSuccessor, if_neg he, hf, hph] at hcs
  cases hp : prev.compaction.phase with
  | idle =>
    simp only [hp, Bool.false_eq_true, if_false, Bool.and_eq_true, decide_eq_true_eq] at hcs
    have hd : next.compaction.evacuationSource = prev.directory.map DirectoryCommit.root :=
      hcs.1.2
    rw [hx] at hd
    obtain ⟨c, hcd, hcx⟩ := Option.map_eq_some_iff.mp hd.symm
    rw [← hcx]
    exact hc c hcd
  | evacuating => simp [hp] at hcs
  | reclaiming => simp [hp] at hcs
  | packing => simp [hp] at hcs

theorem Good.successor (hp : Good prev) (h : isSuccessor prev next) (ht : Typed next)
    (hi : next.invariantViolation = none) : Good next :=
  ⟨ht, hi, source_of_successor hp.source
    (fun c hc => ((invariants_of_ok hp.ok).commit c hc).2.2) h hi⟩

theorem good_first (hp : prev = Superblock.genesis prev.groupId) (h : isSuccessor prev
    next) (ht : Typed next) (hi : next.invariantViolation = none) : Good next := by
  refine ⟨ht, hi, source_of_successor ?_ ?_ h hi⟩
  · intro x hx
    rw [hp] at hx
    cases hx
  intro c hc
  rw [hp] at hc
  cases hc

structure Beside (r : Superblock) (slot : RootSlot) (o : List Byte) : Prop where
  sound : MagicSound o
  /-- Only before the second publication can this slot still begin with a zero byte. -/
  fresh : o[0]? = some 0 → slot = .b ∧ r.generation = 1
  content : ChecksumBad o ∨ o = slotImage r ∨
    ∃ p, Good p ∧ o = slotImage p ∧ isSuccessor p r ∧ slot = .forGeneration r.generation

structure Held (d : Slots) (r : Superblock) (slot : RootSlot) : Prop where
  good : Good r
  image : d slot = slotImage r
  beside : Beside r slot (d slot.other)

/-- No publication has completed: only the slot of generation one may be torn. -/
structure Blank (d : Slots) : Prop where
  mirror : d .a = zeros rootSlotBytes
  sound : MagicSound (d .b)
  bad : ChecksumBad (d .b)

def Shows (d : Slots) : Option Superblock → Prop
  | none => Blank d
  | some r => ∃ slot, Held d r slot

@[simp] theorem other_other (s : RootSlot) : s.other.other = s := by cases s <;> rfl

theorem other_ne (s : RootSlot) : s.other ≠ s := by cases s <;> decide

theorem eq_or_other (s t : RootSlot) : t = s ∨ t = s.other := by
  cases s <;> cases t <;> simp [RootSlot.other]

theorem image_head (s : Superblock) : (slotImage s)[0]? ≠ some 0 := by
  rw [slotImage_get s (by decide)]; decide

theorem checksumBad_zeros : ChecksumBad (zeros rootSlotBytes) := by
  left
  rw [slice_zeros]
  decide

theorem magicSound_blank : MagicSound (zeros rootSlotBytes) := magicSound_zeros (by decide)

theorem head_of_zero (h : MagicSound o) (hz : isZero o = true) : o[0]? = some 0 := by
  rcases h 0 (by decide) with h0 | h0
  · exact h0
  have hl : 0 < o.length := by
    have := congrArg Option.isSome h0
    simpa [rootMagic, MediaFormat.magicStem] using this
  rw [isZero_iff.mp hz, zeros, List.getElem?_replicate_of_lt hl]

/-- A torn image beside a held root decodes as invalid, or as unwritten in the mirror of the
first publication. -/
theorem Beside.decode_bad (h : Beside r slot o) (hb : ChecksumBad o) :
    decodeSlot o = .ok .invalid ∨ decodeSlot o = .ok .unwritten ∧ slot = .b ∧ r.generation = 1 := by
  rw [decodeSlot_bad h.sound hb]
  by_cases hz : isZero o = true
  · right
    exact ⟨by rw [if_pos hz], h.fresh (head_of_zero h.sound hz)⟩
  · left
    rw [if_neg hz]

theorem select_blank (h : Blank d) : selectRootImages (d .a) (d .b) = .ok .empty := by
  have ha : decodeSlot (d .a) = .ok .unwritten := by
    rw [h.mirror, decodeSlot_bad magicSound_blank checksumBad_zeros]
    rw [if_pos (isZero_zeros _)]
  have hb := decodeSlot_bad h.sound h.bad
  simp only [selectRootImages, ha, hb, bind, Except.bind]
  split <;> rfl

theorem held_everywhere (hg : Good r) (h : ∀ t, d t = slotImage r) (slot : RootSlot) :
    Held d r slot := by
  refine ⟨hg, h slot, ?_⟩
  rw [h slot.other]
  exact ⟨magicSound_image r, fun h0 => absurd h0 (image_head r), .inr (.inl rfl)⟩

theorem select_same (r : Superblock) :
    selectDecoded (.valid r) (.valid r) = .ok (.selected r .a true) := by
  simp [selectDecoded, pure, Except.pure]

theorem select_adjacent (h : isSuccessor p r) : (RootSlot.a = .forGeneration r.generation →
      selectDecoded (.valid r) (.valid p) = .ok (.selected r .a false)) ∧
    (RootSlot.b = .forGeneration r.generation →
      selectDecoded (.valid p) (.valid r) = .ok (.selected r .b false)) := by
  obtain ⟨hge, hg⟩ := isSuccessor_step h
  have hl : p.generation < r.generation := by omega
  constructor
  · intro hs
    have hn : r.generation ≠ p.generation := by omega
    simp [selectDecoded, hg, hn, hl, ← hs, hge, h, pure, Except.pure]
  intro hs
  have hn : p.generation ≠ r.generation := by omega
  have hnl : ¬ r.generation < p.generation := by omega
  simp [selectDecoded, hg, hn, hnl, ← hs, hge, h, pure, Except.pure]

theorem select_held (h : Held d r slot) :
    ∃ s mirrored, selectRootImages (d .a) (d .b) = .ok (.selected r s mirrored) ∧
      Held d r s ∧ (mirrored = true → ∀ t, d t = slotImage r) := by
  have hr := h.good.decode
  have ho := h.beside
  rcases ho.content with hba | hsa | ⟨p, hp, hi, hs, hsl⟩
  · -- The other slot is torn: the only intact one is selected.
    refine ⟨slot, false, ?_, h, by intro hm; cases hm⟩
    have hd := ho.decode_bad hba
    cases slot with
    | a =>
      rcases hd with hd | ⟨-, hb, -⟩
      · simp only [selectRootImages, h.image, hr]
        simp only [RootSlot.other] at hd
        simp [hd, bind, Except.bind, selectDecoded, pure, Except.pure]
      · cases hb
    | b =>
      simp only [selectRootImages, h.image, hr]
      rcases hd with hd | ⟨hd, -, hon⟩
      · simp only [RootSlot.other] at hd
        simp [hd, bind, Except.bind, selectDecoded, pure, Except.pure]
      · simp only [RootSlot.other] at hd
        simp [hd, bind, Except.bind, selectDecoded, pure, Except.pure, hon]
  · have ha : ∀ t, d t = slotImage r := by
      intro t
      rcases eq_or_other slot t with rfl | rfl
      · exact h.image
      · exact hsa
    refine ⟨.a, true, ?_, held_everywhere h.good ha .a, fun _ => ha⟩
    simp only [selectRootImages, ha, hr, bind, Except.bind]
    exact select_same r
  -- The other slot still holds the predecessor.
  refine ⟨slot, false, ?_, h, by intro hm; cases hm⟩
  cases slot with
  | a =>
    simp only [RootSlot.other] at hi
    simp only [selectRootImages, h.image, hi, hr, hp.decode, bind, Except.bind]
    exact (select_adjacent hs).1 hsl
  | b =>
    simp only [RootSlot.other] at hi
    simp only [selectRootImages, h.image, hi, hr, hp.decode, bind, Except.bind]
    exact (select_adjacent hs).2 hsl

theorem head_of_mixture (h : Mixture o (slotImage r) m) (h0 : m[0]? = some 0) : o[0]? = some 0 := by
  rcases h.2 0 with h1 | h1
  · rw [← h1]; exact h0
  · exact absurd (h1 ▸ h0) (image_head r)

theorem update_other_same (d : Slots) (s : RootSlot) (m : List Byte) :
    Function.update d s.other m s = d s :=
  update_of_ne (other_ne s).symm m d

theorem Held.torn (h : Held d r slot) (ht : tear (d slot.other) (slotImage s) m)
    (hn : m ≠ slotImage s) : Held (Function.update d slot.other m) r slot := by
  refine ⟨h.good, by rw [update_other_same]; exact h.image, ?_⟩
  rw [update_self]
  rcases ht with rfl | rfl | ⟨hm, hb⟩
  · exact h.beside
  · exact absurd rfl hn
  · exact ⟨h.beside.sound.mixture (magicSound_image s) hm,
      fun h0 => h.beside.fresh (head_of_mixture hm h0), .inl hb⟩

theorem Held.mirror (h : Held d r slot) (ht : tear (d slot.other) (slotImage r) m) :
    Held (Function.update d slot.other m) r slot := by
  by_cases hn : m = slotImage r
  · subst hn
    apply held_everywhere h.good
    intro t
    rcases eq_or_other slot t with rfl | rfl
    · rw [update_other_same]; exact h.image
    · exact update_self _ _ _
  · exact h.torn ht hn

theorem Held.published (h : Held d r slot.other) (hn : Good next) (hs : isSuccessor r next)
    (hsl : slot = .forGeneration next.generation) :
    Held (Function.update d slot (slotImage next)) next slot := by
  refine ⟨hn, update_self _ _ _, ?_⟩
  rw [update_of_ne (other_ne slot), h.image]
  refine ⟨magicSound_image r, fun h0 => absurd h0 (image_head r), ?_⟩
  exact .inr (.inr ⟨r, h.good, rfl, hs, hsl⟩)

theorem Held.publish (h : Held d r slot.other) (hn : Good next) (hs : isSuccessor r next)
    (hsl : slot = .forGeneration next.generation) (ht : tear (d slot) (slotImage next) m) :
    Held (Function.update d slot m) r slot.other ∨ Held (Function.update d slot m) next slot := by
  by_cases hne : m = slotImage next
  · right
    rw [hne]
    exact h.published hn hs hsl
  left
  have hto := h.torn (m := m) (s := next) (by rw [other_other]; exact ht) hne
  rw [other_other] at hto
  exact hto

theorem Blank.published (h : Blank d) (hn : Good next) (ho : next.generation = 1) :
    Held (Function.update d .b (slotImage next)) next .b := by
  have ha : Function.update d .b (slotImage next) RootSlot.b.other = zeros rootSlotBytes :=
    h.mirror
  refine ⟨hn, update_self _ _ _, ?_⟩
  rw [ha]
  exact ⟨magicSound_blank, fun _ => ⟨rfl, ho⟩, .inl checksumBad_zeros⟩

theorem Blank.publish (h : Blank d) (hn : Good next) (ho : next.generation = 1)
    (ht : tear (d .b) (slotImage next) m) :
    Blank (Function.update d .b m) ∨ Held (Function.update d .b m) next .b := by
  rcases ht with rfl | rfl | ⟨hm, hb⟩
  · left
    rw [update_eq_self]; exact h
  · right
    exact h.published hn ho
  left
  refine ⟨h.mirror, ?_, ?_⟩
  · rw [update_self]
    exact h.sound.mixture (magicSound_image next) hm
  · rw [update_self]; exact hb

end RootSlots
