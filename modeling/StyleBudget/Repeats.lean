/-
  Repeats: selectors that extend a placeholder more than once.

  * `repeatFinding` is the finding about one repeat;
  * `dropRepeats` keeps the first occurrences, with a finding for each repeat if
    they are asked for; in a strict run the first repeat is fatal;
  * `RepeatFilter` does this while it tells each finding at once: to its listener,
    or to the log if nothing listens.  `filterRepeats` is a whole run of it.
-/
import StyleBudget.Log

namespace StyleBudget

def repeatFinding (severity : Severity) (placeholder selector : String) : Finding where
  kind := .duplicate
  severity := severity
  message := selector ++ " is already extending %" ++ placeholder ++ "."
  placeholder := some placeholder
  selector := some selector

/-- The first occurrences among the selectors after those in `seen`, and a
    finding for each repeat. -/
def dropRepeatsAfter (seen : List String) (placeholder : String) (options : Options) :
    List String → Except Finding (List String × List Finding)
  | [] => .ok ([], [])
  | s :: rest =>
    if s ∈ seen then
      if options.strict then .error (repeatFinding .error placeholder s)
      else
        (dropRepeatsAfter seen placeholder options rest).map fun (kept, findings) =>
          (kept, if options.warnDuplicates then repeatFinding .warning placeholder s :: findings
            else findings)
    else
      (dropRepeatsAfter (s :: seen) placeholder options rest).map fun (kept, findings) =>
        (s :: kept, findings)

/-- The first occurrences among the selectors and a finding for each repeat, if
    they are asked for; in a strict run, the finding about the first repeat if
    there is one. -/
def dropRepeats (placeholder : String) (options : Options) (selectors : List String) :
    Except Finding (List String × List Finding) :=
  dropRepeatsAfter [] placeholder options selectors

/-! ## Telling at once -/

/-- A filter at work: the selectors that it has met, those that it keeps, what its
    listener has made of the findings, and the log. -/
structure RepeatFilter (σ : Type) where
  seen : List String := []
  kept : List String := []
  heard : σ
  log : List Event := []

section

variable {σ : Type} (listener : Option (σ → Finding → σ)) (placeholder : String)
  (options : Options)

namespace RepeatFilter

/-- The selector is new and is kept. -/
def keep (w : RepeatFilter σ) (s : String) : RepeatFilter σ :=
  { w with seen := s :: w.seen, kept := w.kept ++ [s] }

/-- A finding goes to the listener, or to the log if nothing listens. -/
def tell (w : RepeatFilter σ) (f : Finding) : RepeatFilter σ :=
  match listener with
  | some hear => { w with heard := hear w.heard f }
  | none => { w with log := w.log ++ [.unheard f] }

/-- A new selector is kept; a repeat stops a strict run, and is told in any other
    if findings are asked for. -/
def take (w : RepeatFilter σ) (s : String) : Except Finding Unit × RepeatFilter σ :=
  if s ∉ w.seen then (.ok (), w.keep s)
  else if options.strict then (.error (repeatFinding .error placeholder s), w)
  else if options.warnDuplicates then
    (.ok (), w.tell listener (repeatFinding .warning placeholder s))
  else (.ok (), w)

/-- Takes the selectors in order, up to a repeat that stops the run. -/
def takeAll (w : RepeatFilter σ) : List String → Except Finding Unit × RepeatFilter σ
  | [] => (.ok (), w)
  | s :: rest =>
    match w.take listener placeholder options s with
    | (.error f, w) => (.error f, w)
    | (.ok (), w) => w.takeAll rest

end RepeatFilter

/-- What a filter makes of the selectors, and where it stands then; its listener
    starts in the given state. -/
def filterRepeats (heard : σ) (selectors : List String) :
    Except Finding (List String) × RepeatFilter σ :=
  let (outcome, w) :=
    RepeatFilter.takeAll listener placeholder options { heard := heard } selectors
  (outcome.map fun _ => w.kept, w)

end

end StyleBudget
