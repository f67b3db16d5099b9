import ReactiveNotebook.Language
import ReactiveNotebook.Analysis.Template

/-!
# Rendering templates

Every placeholder is replaced by the text of its value, which goes through the filter if there is one. A
placeholder whose expression fails is replaced by a marker.
-/
namespace ReactiveNotebook

open Analysis (Part)

def Language.renderPart (l : Language) (inputs : Inputs) : Part → Except Format.Overflow String
  | .text content => .ok content
  | .placeholder p =>
    match l.evaluate p.expression inputs, p.filter with
    | .error _, _ => .ok Format.errorMarker
    | .ok v, none => .ok (Format.valueText v)
    | .ok v, some f => f.apply v

def Language.render (l : Language) (template : String) (inputs : Inputs) : Except Format.Overflow String := do
  let texts ← (Analysis.parseTemplate template).1.mapM (l.renderPart inputs)
  return String.join texts

end ReactiveNotebook
