import ReactiveNotebook.Analysis.Warning
import ReactiveNotebook.Proofs.Analysis.Lexing
import ReactiveNotebook.Proofs.Analysis.StatementPassage

/-!
# Dependencies of formulas and scripts

The reads of a written formula are its free names. The reads of a written script hold every name that occurs free
outside functions and none whose occurrences are all bound, so a local name never makes a cell depend on another.
-/
namespace ReactiveNotebook.Analysis

/-- The reads of a formula are the names that occur free in it, and it has no warnings. -/
theorem expressionReads_eq_free {e : Expression} {text : String} (hvalid : e.isValid [] = true)
    (hregular : e.isRegular false = true) (hwritten : Writes e.tokens text.toList) :
    expressionReads text = (Names.ofList (e.free true []), []) := by
  rw [expressionReads, lex_eq_iff.2 hwritten, ← e.taken_eq_free hvalid hregular (.inl rfl)]
  exact congrArg (·, []) (e.freeNames_tokens hvalid hregular)

/-- A parameter of a closure is bound in it and free beside it. -/
theorem expressionReads_filtered :
    expressionReads "items.filter(|i| i > $x && `$\x7b[i, f(y)]\x7d` != \"i\") + i" =
      (Names.ofList ["items", "x", "y", "i"], []) :=
  expressionReads_eq_free (e := .binary
    (.method (.variable "items" false) false "filter" (.last none (.closure ["i"] (.binary
      (.binary (.variable "i" false) .gt (.variable "x" true)) .and
      (.binary (.embedded (.array (.cons none (.variable "i" false)
          (.last none (.call [] "f" (.last none (.variable "y" false)))))) (.text "")) .ne (.text "i"))))))
    .add (.variable "i" false))
    (by decide) (by decide) (lex_eq_iff.1 (by decide))

/-- A bar after a number that ends in its point is taken for the parameters of a closure, and what follows is not
read. -/
theorem expressionReads_bar_after_point :
    ∃ e : Expression, e.isValid [] = true ∧ Writes e.tokens "1.|x".toList ∧
      expressionReads "1.|x" ≠ (Names.ofList (e.free true []), []) :=
  ⟨.binary (.number true) .bar (.variable "x" false), by decide, lex_eq_iff.1 (by decide), by decide⟩

section
variable {b : Statements} {text name : String}

lemma scriptReads_eq_taken {braces : Bool} (hvalid : b.isValid [] = true) (hregular : b.isRegular braces = true)
    (hwritten : Writes b.tokens text.toList) : scriptReads text = (Names.ofList (b.taken []), []) := by
  rw [scriptReads, lex_eq_iff.2 hwritten]
  exact congrArg (·, []) (b.freeNames_tokens hvalid hregular)

/-- A name that occurs free outside the bodies of functions is read. -/
theorem mem_scriptReads_of_free (hvalid : b.isValid [] = true) (hregular : b.isRegular true = true)
    (hwritten : Writes b.tokens text.toList) (hfree : name ∈ b.free false []) : name ∈ (scriptReads text).1 := by
  rw [scriptReads_eq_taken hvalid hregular hwritten, Names.mem_ofList]
  exact b.mem_taken hregular id (b.mem_free id hfree)

/-- A name is read where it stands beside the loop that binds it, also in the declaration that binds it next and
where a map in the items of the loop takes the name of the loop. -/
theorem mem_scriptReads_beside_loop :
    "x" ∈ (scriptReads "for x in #\x7ba: xs\x7d.values() \x7b let y = x; f(y, z); \x7d let x = x;").1 :=
  mem_scriptReads_of_free
    (b := .next
      (.forLoop "x" none
        (.method (.map (.last (some (.word "a")) (.variable "xs" false))) false "values" .nil)
        (.cons (.define false "y" (.variable "x" false))
          (.cons (.expression (.call [] "f" (.cons none (.variable "y" false) (.last none (.variable "z" false)))))
            .nil)))
      (.cons (.define false "x" (.variable "x" false)) .nil))
    (by decide) (by decide) (lex_eq_iff.1 (by decide)) (by decide)

/-- Without a name for the caught error the brace of the handler is passed over, and what the handler declares stays
bound after it. -/
theorem not_mem_scriptReads_after_nameless_catch :
    ∃ b : Statements, b.isValid [] = true ∧
      Writes b.tokens "try \x7b f(); \x7d catch \x7b let x = 1; \x7d exports.y = x;".toList ∧ "x" ∈ b.free false [] ∧
      "x" ∉ (scriptReads "try \x7b f(); \x7d catch \x7b let x = 1; \x7d exports.y = x;").1 :=
  ⟨.next
      (.tryCatch (.cons (.expression (.call [] "f" .nil)) .nil) none (.cons (.define false "x" (.number false)) .nil))
      (.cons (.assign (.property (.variable "exports" false) false "y") none (.variable "x" false)) .nil),
    by decide, lex_eq_iff.1 (by decide), by decide, by decide⟩

/-- A name whose occurrences are all bound is not read. -/
theorem not_mem_scriptReads_of_bound (hvalid : b.isValid [] = true) (hregular : b.isRegular false = true)
    (hwritten : Writes b.tokens text.toList) (hbound : name ∉ b.free true []) : name ∉ (scriptReads text).1 := by
  rwa [scriptReads_eq_taken hvalid hregular hwritten, b.taken_eq_free hvalid hregular, Names.mem_ofList]

/-- The name of a loop is bound in its body, also where the items of the loop hold a closure over that name. -/
theorem not_mem_scriptReads_in_loop :
    "x" ∉
      (scriptReads "for (x, i) in xs.map(|x| x + 1) \x7b let y = x; ys.push(|z| \x7b z + y + i \x7d); \x7d").1 :=
  not_mem_scriptReads_of_bound
    (b := .last (.forLoop "x" (some "i")
      (.method (.variable "xs" false) false "map"
        (.last none (.closure ["x"] (.binary (.variable "x" false) .add (.number false)))))
      (.cons (.define false "y" (.variable "x" false))
        (.cons (.expression (.method (.variable "ys" false) false "push"
          (.last none (.blockClosure ["z"] (.last (.expression
            (.binary (.binary (.variable "z" false) .add (.variable "y" false)) .add (.variable "i" false))))))))
          .nil))))
    (by decide) (by decide) (lex_eq_iff.1 (by decide)) (by decide)

/-- A brace in the items of a loop takes the name of the loop, which is then free in the body. -/
theorem mem_scriptReads_of_map_in_items :
    ∃ b : Statements, b.isValid [] = true ∧
      Writes b.tokens "for k in #\x7ba: 1\x7d.keys() \x7b print(k); \x7d".toList ∧ "k" ∉ b.free true [] ∧
      "k" ∈ (scriptReads "for k in #\x7ba: 1\x7d.keys() \x7b print(k); \x7d").1 :=
  ⟨.last (.forLoop "k" none (.method (.map (.last (some (.word "a")) (.number false))) false "keys" .nil)
      (.cons (.expression (.call [] "print" (.last none (.variable "k" false)))) .nil)),
    by decide, lex_eq_iff.1 (by decide), by decide, by decide⟩

end

end ReactiveNotebook.Analysis
