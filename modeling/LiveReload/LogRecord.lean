import LiveReload.Verdict
import LiveReload.FileEvent

namespace LiveReload

inductive LogRecord where
  | registering (url : Url)
  | reconciledEdges (url : Url) (added removed pruned : Nat)
  | removedResource (url : Url) (pruned : Nat)
  | danglingDependent (url dependent : Url)
  | updateAccepted (url : Url) (boundaries : Nat)
  | updateDeclined (url : Url) (reason : DeclineReason) (declinedBy : Option Url)
  | staleTicket (url : Url) (generation applied : Nat)
  | unknownResource (event : FileEvent)
  | pruneSkipped (fault : UnknownResource)
  | sendingReload (kind cause : String) (updates : Nat)
  | noClient (cause : String)
deriving DecidableEq

namespace LogRecord

inductive Level where
  | trace
  | debug
  | info
  | warn
deriving DecidableEq

def Level.name : Level → String
  | trace => "TRACE"
  | debug => "DEBUG"
  | info => "INFO"
  | warn => "WARN"

inductive Field where
  | count (n : Nat)
  | text (s : String)
deriving DecidableEq

def level : LogRecord → Level
  | registering .. | reconciledEdges .. | noClient .. => .trace
  | removedResource .. | updateAccepted .. | updateDeclined .. | unknownResource .. => .debug
  | sendingReload .. => .info
  | danglingDependent .. | staleTicket .. | pruneSkipped .. => .warn

def message : LogRecord → String
  | registering .. => "registering resource"
  | reconciledEdges .. => "reconciled edges"
  | removedResource .. => "removed resource"
  | danglingDependent .. => "dangling dependent edge"
  | updateAccepted .. => "update accepted"
  | updateDeclined .. => "update declined"
  | staleTicket .. => "discarding stale re-parse"
  | unknownResource .. => "ignoring change of unknown resource"
  | pruneSkipped .. => "prune notification skipped"
  | sendingReload .. => "sending reload"
  | noClient .. => "no client connected"

def fields : LogRecord → List (String × Field)
  | registering url => [("url", .text url)]
  | reconciledEdges url added removed pruned =>
      [("url", .text url), ("added", .count added), ("removed", .count removed),
        ("pruned", .count pruned)]
  | removedResource url pruned => [("url", .text url), ("pruned", .count pruned)]
  | danglingDependent url dependent => [("url", .text url), ("dependent", .text dependent)]
  | updateAccepted url boundaries => [("url", .text url), ("boundaries", .count boundaries)]
  | updateDeclined url reason declinedBy =>
      [("url", .text url), ("reason", .text reason.text),
        ("declined_by", .text (declinedBy.getD ""))]
  | staleTicket url generation applied =>
      [("url", .text url), ("generation", .count generation), ("applied", .count applied)]
  | unknownResource event => [("url", .text event.url), ("event", .text event.kind.name)]
  | pruneSkipped fault => [("err", .text fault.message)]
  | sendingReload kind cause updates =>
      [("kind", .text kind), ("cause", .text cause), ("updates", .count updates)]
  | noClient cause => [("cause", .text cause)]

end LogRecord

-- A result and the records made on the way to it, oldest first.
structure Logged (α : Type) where
  result : α
  log : List LogRecord

namespace Logged

variable {α β : Type}

instance : Monad Logged where
  pure value := ⟨value, []⟩
  bind step next :=
    let rest := next step.result
    ⟨rest.result, step.log ++ rest.log⟩

@[simp] theorem result_pure (value : α) : (pure value : Logged α).result = value := rfl

@[simp] theorem log_pure (value : α) : (pure value : Logged α).log = [] := rfl

@[simp] theorem result_bind (step : Logged α) (next : α → Logged β) :
    (step >>= next).result = (next step.result).result := rfl

@[simp] theorem log_bind (step : Logged α) (next : α → Logged β) :
    (step >>= next).log = step.log ++ (next step.result).log := rfl

def tell (record : LogRecord) : Logged Unit := ⟨(), [record]⟩

@[simp] theorem log_tell (record : LogRecord) : (tell record).log = [record] := rfl

end Logged

end LiveReload
