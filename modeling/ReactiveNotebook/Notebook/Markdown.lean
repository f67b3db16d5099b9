import ReactiveNotebook.Engine.Basic
import ReactiveNotebook.Format.Basic

/-!
# Markdown export

An evaluated notebook is exported cell by cell with an empty line between cells: the rendered text of a
template, one line with name and value for a formula or input, and the source of a script with a list of what
it wrote. A fault takes the place of the result, or follows it.
-/
namespace ReactiveNotebook.Notebook

/-- A value inside a line: bars are escaped and line breaks become blanks. -/
def escapeMarkdown (s : String) : String :=
  String.ofList (s.toList.flatMap fun c => if c == '|' then ['\\', '|'] else if c == '\n' then [' '] else [c])

/-- The text without trailing blanks. -/
def trimEnd (s : String) : String :=
  String.ofList (s.toList.reverse.dropWhile Text.isBlank).reverse

def faultLine (f : Fault) : String := s!"> **Error:** {f.message}\n"

def cellMarkdown (e : Engine) (c : Cell) : String :=
  let value (name : String) : String := escapeMarkdown (Format.slotText (e.get name))
  match c.content, c.status.fault? with
  | .markdown _, some f => faultLine f
  | .markdown template, none => c.rendered.getD template ++ "\n"
  | .formula _ output, fault | .input _ output, fault =>
    let suffix := match fault with
      | some f => s!" ({f.message})"
      | none => ""
    s!"\x60{output}\x60 = {value output}{suffix}\n"
  | .script source, fault =>
    let fence := s!"\x60\x60\x60rhai\n{trimEnd source}\n\x60\x60\x60\n"
    match fault with
    | some f => fence ++ faultLine f
    | none => fence ++ String.join (c.writes.names.toList.map fun name => s!"- \x60{name}\x60 = {value name}\n")

/-- The text of an evaluated notebook. -/
def markdown (e : Engine) : String :=
  String.intercalate "\n" (e.cells.map (cellMarkdown e))

end ReactiveNotebook.Notebook
