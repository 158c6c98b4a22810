import Kasumi.PublicationExits

/-! Histories of one tenant. A step publishes an ordered command, moves the revision over a
consensus entry that carries no command, or leaves a permanent row behind that no generation
selects yet. On publication the new documents are placed in the document store: their slots
then hold descriptors. -/
namespace Publications

open TenantTypes Mutations PermanentRows MutationEffects Engine

variable {Idx Acc : Type} (X : Externals Idx Acc) (contents : StoredDocument → Document)

structure Describes (descriptor : StoredDocument) (d : Document) : Prop where
  id : descriptor.id = d.id
  version : descriptor.version = d.version
  bodyBytes : descriptor.bodyBytes = X.len (.body d.body)
  documentBytes : descriptor.documentBytes = X.len (.document d)
  holds : contents descriptor = d

inductive SlotPlaced : DocumentSlot → DocumentSlot → Prop where
  | kept (slot : DocumentSlot) : SlotPlaced slot slot
  | placed {d : Document} {descriptor : StoredDocument} : Describes X contents descriptor d →
      SlotPlaced (.pending d) (.stored descriptor)

def SlotsPlaced : Option DocumentSlot → Option DocumentSlot → Prop :=
  Option.Rel (SlotPlaced X contents)

structure CollectionPlaced (a b : CollectionState) : Prop where
  epoch : b.dataEpoch = a.dataEpoch
  shape : shape b = shape a
  documents : ∀ i, SlotsPlaced X contents (a.documents.get i) (b.documents.get i)

structure RecordPlaced (a b : ChangeRecord) : Prop where
  collection : b.collection = a.collection
  id : b.id = a.id
  document : SlotsPlaced X contents a.document b.document

structure CommitPlaced (a b : ChangeCommit) : Prop where
  revision : b.revision = a.revision
  firstSequence : b.firstSequence = a.firstSequence
  recordBytes : b.recordBytes = a.recordBytes
  records : List.Forall₂ (RecordPlaced X contents) a.records b.records

structure FeedPlaced (a b : ChangeFeedState) : Prop where
  nextSequence : b.nextSequence = a.nextSequence
  eventCount : b.eventCount = a.eventCount
  encodedCommitBytes : b.encodedCommitBytes = a.encodedCommitBytes
  commits : ∀ n, Option.Rel (CommitPlaced X contents) (a.commits.get n) (b.commits.get n)

def forgetSlots (s : TenantState) : TenantState :=
  { s with
    collections := OrdMap.empty
    changeFeed := ⟨0, OrdMap.empty, 0, 0⟩ }

structure Placed (s t : TenantState) : Prop where
  frame : forgetSlots t = forgetSlots s
  collections : ∀ c, Option.Rel (CollectionPlaced X contents) (s.collections.get c)
    (t.collections.get c)
  feed : FeedPlaced X contents s.changeFeed t.changeFeed

structure Publishes (site : Site) (g : Generation Idx Acc) (command : Command) (outcome : Outcome)
    (g' : Generation Idx Acc) : Prop where
  faithful : Faithful contents site.resolver
  prepared : ∃ candidate changed placed,
    prepareCommandOrdered X site g command = .ok ⟨some candidate, changed, outcome⟩ ∧
    Placed X contents candidate.state placed ∧ g' = { candidate with state := placed }

inductive Step : Generation Idx Acc → Generation Idx Acc → Prop where
  | publish {site : Site} {g g' : Generation Idx Acc} {command : Command} {outcome : Outcome} :
      Publishes X contents site g command outcome g' → Step g g'
  | metadata {g : Generation Idx Acc} {revision : ℕ} : g.state.revision < revision →
      Step g { g with state := atRevision g.state revision }
  | receiptAhead {g : Generation Idx Acc} {row : ReceiptRow}
      {table : ChainTable.Table ReceiptRow} : g.receipts.head.count < row.ordinal →
      ChainTable.stageRow (ReceiptView.layout X g.receipts) g.receipts.table row = .ok table →
      Step g { g with receipts := ⟨table, g.receipts.head⟩ }
  | terminalAhead {g : Generation Idx Acc} {row : TerminalRow}
      {table : ChainTable.Table TerminalRow} : g.terminals.head.count < row.ordinal →
      ChainTable.stageRow (terminalLayout X g.terminals.head.originIncarnation) g.terminals.table
        row = .ok table →
      Step g { g with terminals := ⟨table, g.terminals.head⟩ }

def Run : Generation Idx Acc → Generation Idx Acc → Prop :=
  Relation.ReflTransGen (Step X contents)

variable {X} {contents}

theorem Run.keeps {P : Generation Idx Acc → Prop} (hst : ∀ g g', Step X contents g g' → P g → P g')
    (hr : Run X contents g g') (hs : P g) : P g' := by
  induction hr with
  | refl => exact hs
  | tail _ hl ih => exact hst _ _ hl ih

theorem placed_refl (s : TenantState) : Placed X contents s s := by
  have hre : ∀ {α : Type} {r : α → α → Prop} (hr : ∀ a, r a a) (o : Option α),
      Option.Rel r o o := by
    intro α r hr o
    cases o with
    | none => exact Option.Rel.none
    | some a => exact Option.Rel.some (hr a)
  have hs := hre (@SlotPlaced.kept _ _ X contents)
  refine ⟨rfl, fun c => hre (fun a => ⟨rfl, rfl, fun i => hs _⟩) _, rfl, rfl, rfl, ?_⟩
  exact fun n => hre (fun a => ⟨rfl, rfl, rfl, List.forall₂_same.mpr fun r _ => ⟨rfl, rfl, hs _⟩⟩) _

section Placement

variable {a b : DocumentSlot}

section

variable (h : SlotPlaced X contents a b)

include h

theorem SlotPlaced.version : slotVersion b = slotVersion a := by
  cases h with
  | kept => rfl
  | placed hd => exact hd.version

theorem SlotPlaced.id : slotId b = slotId a := by
  cases h with
  | kept => rfl
  | placed hd => exact hd.id

theorem SlotPlaced.bodyBytes : Mutations.bodyBytes X b = Mutations.bodyBytes X a := by
  cases h with
  | kept => rfl
  | placed hd => exact hd.bodyBytes

end

section Related

variable {α β : Type} {a b : Option α}

theorem rel_map (hf : ∀ {x y : α}, r x y → f y = f x) (h : Option.Rel r a b) :
    b.map f = a.map f := by
  cases h with
  | none => rfl
  | some hx => exact congrArg some (hf hx)

theorem rel_bind (hf : ∀ {x y : α}, r x y →
    Option.Rel q (f x) (g y)) (h : Option.Rel r a b) : Option.Rel q (a.bind f) (b.bind g) := by
  cases h with
  | none => exact Option.Rel.none
  | some hx => exact hf hx

end Related

theorem Placed.resident (h : Placed X contents s t) (c i : String) :
    SlotsPlaced X contents (ChangeFeed.resident s c i) (ChangeFeed.resident t c i) :=
  rel_bind (fun hp => hp.documents i) (h.collections c)

theorem Placed.collection_map
    (hf : ∀ {a b : CollectionState}, CollectionPlaced X contents a b → f b = f a)
    (h : Placed X contents s t) (c : String) :
    (t.collections.get c).map f = (s.collections.get c).map f :=
  rel_map hf (h.collections c)

end Placement

end Publications
