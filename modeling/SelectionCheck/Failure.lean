import SelectionCheck.Finding

/-!
# Failures

A failure is what an operation of the library gives in place of a result when the result is no
finding by itself: a plain message, a finding that ended the operation, a refused web request, or
another failure with a context before it. The wording of a wrapped failure is the context, a colon
and the wording inside. A finding or a refusal inside wrappers is still found there.
-/

namespace SelectionCheck

inductive Failure
  | plain (message : Text)
  | finding (finding : Finding)
  | refusal (message : Text) (status : Int) (cause : Option Text)
  | wrapped (context : Text) (inner : Failure)
deriving DecidableEq, Repr

namespace Failure

def message : Failure → Text
  | .plain text => text
  | .finding f => f.message
  | .refusal text _ cause => text ++ cause.getD []
  | .wrapped context inner => context ++ ": " ++ inner.message

/-- What stands directly behind a failure: the cause of a refusal, or what was wrapped. -/
def unwrap? : Failure → Option Failure
  | .plain _ | .finding _ => none
  | .refusal _ _ cause => cause.map .plain
  | .wrapped _ inner => some inner

def finding? : Failure → Option Finding
  | .finding f => some f
  | .wrapped _ inner => inner.finding?
  | .plain _ | .refusal _ _ _ => none

/-- A failure as a finding: the one inside it, or one with its wording and nothing else. -/
def toFinding (failure : Failure) : Finding :=
  failure.finding?.getD ⟨failure.message, [], [], .none⟩

def refusalStatus? : Failure → Option Int
  | .refusal _ status _ => some status
  | .wrapped _ inner => inner.refusalStatus?
  | .plain _ | .finding _ => none

/-- The status of an answer that reports the outcome: 200 without a failure, that of the refusal
inside the failure, and 500 for any other failure. -/
def status : Option Failure → Int
  | none => 200
  | some failure => failure.refusalStatus?.getD 500

end Failure

end SelectionCheck
