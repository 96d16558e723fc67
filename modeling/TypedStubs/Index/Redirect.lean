import TypedStubs.Index.Basic
import TypedStubs.Index.Unmet

/-! # Borrowed documentation

A decorator can say that a function has the documentation of another one, which may borrow it in turn.
The chain is followed from function to function; one that comes back to a function it went through
leads nowhere.
-/
namespace TypedStubs.SourceIndex

/-- The first decorator of a function that borrows documentation. -/
def redirect? (s : Settings) (f : SourceFunction) : Option Decorator :=
  f.decorators.find? fun d => s.isRedirect d.callee

/-- The function whose documentation a function says it has: the only argument of the decorator, if
that is a name. -/
def redirectTarget? (s : Settings) (f : SourceFunction) : Option String :=
  match (redirect? s f).map Decorator.args with
  | some [DecoratorArg.reference path] => some path
  | _ => none

/-- The function that a target names. -/
def targetFunction? (index : SourceIndex) (s : Settings) (target : String) :
    Option SourceFunction :=
  s.matchPolicy.pick (index.functionsMatching (Dotted.leaf target) target)

theorem targetFunction?_mem {index : SourceIndex} {s : Settings} {target : String}
    {f : SourceFunction} (h : index.targetFunction? s target = some f) : f ∈ index.functions :=
  functionsMatching_subset (MatchPolicy.pick_mem h)

/-- The end of the chain that goes on with `target` after the functions in `passed`. -/
def redirectEnd? (index : SourceIndex) (s : Settings) (passed : List String) (target : String) :
    Option SourceFunction :=
  match _h : index.targetFunction? s target with
  | none => none
  | some f =>
    if f.qualified ∈ passed then none
    else
      match redirectTarget? s f with
      | none => some f
      | some next => redirectEnd? index s (f.qualified :: passed) next
termination_by unmet SourceFunction.qualified (fun _ => 1) passed index.functions
decreasing_by
  have := unmet_met (fun _ => 1) (targetFunction?_mem _h) ‹_›
  omega

/-- The function whose documentation `f` borrows in the end. -/
def resolveRedirect? (index : SourceIndex) (s : Settings) (f : SourceFunction) :
    Option SourceFunction :=
  (redirectTarget? s f).bind (index.redirectEnd? s [f.qualified])

/-- The docstring that counts as that of a function. -/
def effectiveDocstring? (index : SourceIndex) (s : Settings) (f : SourceFunction) :
    Option String :=
  match redirectTarget? s f with
  | some _ => (index.resolveRedirect? s f).bind (·.docstring)
  | none => f.docstring

end TypedStubs.SourceIndex
