import Kasumi.Genesis
import Kasumi.Rejections

/-! A rejected command has no effect: what it publishes differs from the previous generation in
its logs only. The one exception is a completed restore whose audit event exceeds the record
budget, since the mark of the restore is gone before the event is measured. -/
namespace RejectedCommands

open TenantTypes TenantFrames PublicationExits Publications TerminalHistory Rejections Genesis
  Engine

variable {Idx Acc : Type} {X : Externals Idx Acc} {site : Site} {g g' : Generation Idx Acc}
  {command : Command} {changed : ChangedIds} {e : Error}

theorem content_pendingRestore (s : TenantState) : (content s).pendingRestore = s.pendingRestore := by
  dsimp only [content, forgetLogs, forgetRetirements, forgetActivations, forgetAudits, forgetStaged]

def restoringState (size : ℕ) : TenantState :=
  { sampleState size with
    revision := 7
    suspended := true
    pendingRestore := some ⟨"backup", 7⟩ }

def completedRestore : Command :=
  { context := rootContext
    timestampMs := 0
    operation := .maintenanceAudit
      { eventId := "event"
        principal := "root"
        action := "restore"
        requestId := "request"
        timestampMs := 0
        dataRevision := some 7
        outcome := "completed"
        collection := none } }

end RejectedCommands
