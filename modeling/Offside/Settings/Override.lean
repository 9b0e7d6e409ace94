import Offside.Settings

/-!
# Overriding settings

A single run may override some of the settings.  Marks and whitespace are replaced; the escapes
that are given come after those that are configured already; and whitespace is kept if either
side says so.  The result is checked as a whole, like any other settings, together with what the
environment sets beside the fields.

## Main definitions

* `Override` — what a run asks for.
* `Settings.overridden` — what is given for the fields then.
* `Settings.resolve` — the settings of the run.
-/

namespace Offside

/-- What a single run asks for. -/
structure Override where
  /-- Another mark for opening blocks. -/
  indentMark : Option Value := none
  /-- Another mark for closing blocks. -/
  dedentMark : Option Value := none
  /-- Other whitespace characters. -/
  whitespace : Option Value := none
  /-- Whether to keep leading whitespace in any case. -/
  keepWhitespace : Bool := false
  /-- More characters that escape the rest of their line. -/
  lineEscapes : List (List CodePoint) := []
  /-- More pairs of characters that escape what is between them. -/
  pairedEscapes : List (List CodePoint) := []

namespace Settings

/-- What is given for the fields when a run overrides the settings. -/
def overridden (s : Settings) (o : Override) : Given where
  field
    | .indentMark => some (o.indentMark.getD (s.value .indentMark))
    | .dedentMark => some (o.dedentMark.getD (s.value .dedentMark))
    | .newline => some (s.value .newline)
    | .whitespace => some (o.whitespace.getD (s.value .whitespace))
    | .keepWhitespace => some (.bool (o.keepWhitespace || s.keepWhitespace))
    | .lineEscapes => some (.text (s.lineEscapes ++ o.lineEscapes.flatten))
    | .pairedEscapes =>
      if o.pairedEscapes = [] then some (s.value .pairedEscapes)
      else
        some (.text (Pairs.join (s.pairs.map (fun p => [p.1, p.2]) ++ o.pairedEscapes)))

/-- The settings of a run in an environment, or what cannot be accepted of them.  Every field is
given by the settings already, so of the environment only what is no field counts. -/
def resolve (s : Settings) (o : Override) (environment : Given) :
    Except (List FieldError) Settings :=
  check ((s.overridden o).over environment)

end Settings

end Offside
