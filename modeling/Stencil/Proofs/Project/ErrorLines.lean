import Stencil.Project.Run
import Stencil.Proofs.Source.Positions
import Stencil.Proofs.Template.ErrorsPlaced
/-
  The lines that are told of templates which do not compile.

  An engine that cannot compile a page found its markup, and refused it; a failure is never taken from the
  store.  The error points to a piece of that markup, so its position is found from what stands before the
  piece: the line counts the newlines, and the column the bytes since the last of them.
-/

namespace Stencil

open Lines (lastLine)
open Text (byteLength)

/-! ## What an error says -/

/-- An error about a directive has its words from it. -/
theorem TemplateError.exists_directive_of_code {e : TemplateError} (h : e.code = "element-was-invalid") :
    ∃ name problem, e.problem = .directive name problem ∧
      e.problem.message = "Invalid `" ++ name ++ "` attribute: " ++ problem.reason := by
  have hdirective : e.problem.isDirective = true := by
    unfold code at h
    split at h
    next hdirective => exact hdirective
    next => exact absurd h (by decide)
  obtain ⟨problem, span⟩ := e
  unfold TemplateProblem.isDirective at hdirective
  split at hdirective
  next name problem hproblem => exact ⟨name, problem, hproblem, hproblem ▸ rfl⟩
  next => cases hdirective

/-- The span of an error that points to a piece of a source slices to this piece. -/
theorem TemplateError.PointsTo.slice_eq {source : String} {e : TemplateError} {before piece after : List Char}
    (h : e.PointsTo before piece after) (hsource : source.toList = before ++ piece ++ after) :
    e.span.slice source = some (String.ofList piece) := by
  refine Span.slice_eq_some before after hsource ?_ ?_
  · rw [h.span_eq]
  · rw [h.span_eq]

/-- A failure that has a position is told with its line and its column, from one. -/
theorem Failure.text_eq {f : Failure} {p : Position} (h : f.position = some p) :
    ∃ told, f.text = f.file.text ++ ":" ++ toString (p.line + 1) ++ ":" ++ toString (p.column + 1) ++ told := by
  have hsame : ∀ s : String, toString s = s := fun _ => rfl
  refine ⟨": \x1b[31merror\x1b[0m[" ++ f.error.code ++ "]: " ++ f.error.message, ?_⟩
  simp only [Failure.text, h, Position.display, hsame, String.append_assoc]

namespace Run

/-! ## Pages that do not compile -/

/-- Where an error points, by what stands before the piece it points to. -/
theorem position?_of_pointsTo {source : String} {e : TemplateError} {before piece after : List Char}
    (h : e.PointsTo before piece after) (hsource : source.toList = before ++ piece ++ after) :
    position? (.template e) (some source) = some ⟨before.count '\n', byteLength (lastLine before)⟩ := by
  show some ((Lines.ofText source).position e.span.start) = _
  rw [h.span_eq, Lines.position_of_append (hsource.trans (List.append_assoc _ _ _))]

/-- A page that does not compile fails with what its markup was refused for. -/
theorem runPage_of_compile_error {e : Engine} {file : Path} {err : ViewError} {source : String}
    (hmarkup : e.markupOf (.path file) = .ok source) (h : (e.compile (.path file)).1 = .error err)
    (checkOnly : Bool) (bindings : Bindings) :
    (runPage e checkOnly bindings file).1 = .failed ⟨file, position? err (some source), err⟩ := by
  have hfound : (e.compile (.path file)).2.markupOf (.path file) = .ok source := hmarkup
  unfold runPage
  generalize e.compile (.path file) = compiled at h hfound
  obtain ⟨result, after⟩ := compiled
  obtain rfl : result = .error err := h
  dsimp only at hfound ⊢
  rw [hfound]
  rfl

/-- The error of a source that does not compile points to a piece of the source that is not empty and is what
    the problem is about; if it says that an element is invalid, it names a directive, and the piece is the
    attribute of that name.  A page with this source that does not compile for this error fails at the line
    and the column, told from one, that are the newlines before the piece and the bytes since the last of
    them. -/
theorem compile_error_located {o : Dialect} {source : String} {err : TemplateError}
    (h : Template.compile o source = .error err) :
    ∃ before piece after, source.toList = before ++ piece ++ after ∧ piece ≠ [] ∧
      err.span = ⟨byteLength before, byteLength before + byteLength piece⟩ ∧
      err.span.slice source = some (String.ofList piece) ∧ err.problem.Describes after piece ∧
      (err.code = "element-was-invalid" → ∃ (name : String) (problem : DirectiveProblem) (value : Option String),
        err.problem = .directive name problem ∧
        err.problem.message = "Invalid `" ++ name ++ "` attribute: " ++ problem.reason ∧
        name ∈ Tag.conditionNames ++ Tag.loopNames ∧ name.toList <+: piece ∧
        Tag.AttributeText after piece name value) ∧
      position? (.template err) (some source) = some ⟨before.count '\n', byteLength (lastLine before)⟩ ∧
      ∀ (e : Engine) (file : Path), e.markupOf (.path file) = .ok source →
        (e.compile (.path file)).1 = .error (.template err) →
        ∀ (checkOnly : Bool) (bindings : Bindings), ∃ f : Failure,
          (runPage e checkOnly bindings file).1 = .failed f ∧
          f = ⟨file, some ⟨before.count '\n', byteLength (lastLine before)⟩, .template err⟩ ∧
          (∃ told, f.text = file.text ++ ":" ++ toString (before.count '\n' + 1) ++ ":"
            ++ toString (byteLength (lastLine before) + 1) ++ told) ∧
          f.json = .object [("type", .text "error"), ("file", .text file.text), ("code", .text err.code),
            ("message", .text (ViewError.template err).message),
            ("line", .int ((before.count '\n' + 1 : Nat) : Int)),
            ("column", .int ((byteLength (lastLine before) + 1 : Nat) : Int))] := by
  obtain ⟨before, piece, after, hsource, hpoints⟩ := Template.pointsInto_of_compile h
  have hposition := position?_of_pointsTo hpoints hsource
  refine ⟨before, piece, after, hsource, hpoints.nonempty, hpoints.span_eq, hpoints.slice_eq hsource,
    hpoints.describes, ?_, hposition, ?_⟩
  · intro hcode
    obtain ⟨name, problem, hproblem, hmessage⟩ := TemplateError.exists_directive_of_code hcode
    have hdescribes := hpoints.describes
    rw [hproblem] at hdescribes
    obtain ⟨hname, value, htext⟩ := hdescribes
    exact ⟨name, problem, value, hproblem, hmessage, hname, htext.name_prefix.1, htext⟩
  · intro e file hmarkup hcompile checkOnly bindings
    have hpage := runPage_of_compile_error hmarkup hcompile checkOnly bindings
    rw [hposition] at hpage
    have htext := Failure.text_eq
      (f := ⟨file, some ⟨before.count '\n', byteLength (lastLine before)⟩, .template err⟩) rfl
    exact ⟨_, hpage, rfl, htext, rfl⟩

/-- An engine that finds the same markup everywhere. -/
def anywhere (markup : String) : Engine := { loader := ⟨fun path => .ok ⟨path, markup⟩⟩ }

theorem compile_anywhere {markup : String} {err : TemplateError} (h : Template.compile {} markup = .error err)
    (file : Path) : ((anywhere markup).compile (.path file)).1 = .error (.template err) := by
  have hmarkup : (anywhere markup).markupOf (.path file) = .ok markup := rfl
  have hrefused : Template.compile (anywhere markup).options.dialect markup = .error err := h
  have hfresh : (anywhere markup).compileFresh (.path file) = .error (.template err) := by
    simp only [Engine.compileFresh, hmarkup, hrefused]
  show (Store.fetch {} (.path file) fun _ => (anywhere markup).compileFresh (.path file)).1 = _
  rw [hfresh]
  rfl

/-- A link of a chain where there is none, on the second line and behind a character of two bytes. -/
theorem compile_error_located_else :
    ∃ err, Template.compile {} "a\né <p :else>b</p>" = .error err ∧ err.code = "element-was-invalid" ∧
      err.span = ⟨8, 13⟩ ∧ ∃ before piece after, "a\né <p :else>b</p>".toList = before ++ piece ++ after ∧
        err.span = ⟨byteLength before, byteLength before + byteLength piece⟩ ∧ ":else".toList <+: piece ∧
        (runPage (anywhere "a\né <p :else>b</p>") true [] ⟨"page"⟩).1
          = .failed ⟨⟨"page"⟩, some ⟨before.count '\n', byteLength (lastLine before)⟩, .template err⟩ := by
  have herr : (match Template.compile {} "a\né <p :else>b</p>" with
      | .error err => some err
      | .ok _ => none) = some ⟨.directive ":else" .chainMissing, ⟨8, 13⟩⟩ := by decide +kernel
  cases h : Template.compile {} "a\né <p :else>b</p>" with
  | ok t => rw [h] at herr; cases herr
  | error err =>
    rw [h] at herr
    obtain rfl := Option.some.inj herr
    obtain ⟨before, piece, after, hsource, -, hspan, -, -, hdirective, -, hpage⟩ := compile_error_located h
    obtain ⟨name, problem, value, hproblem, -, -, hprefix, -⟩ := hdirective rfl
    obtain ⟨rfl, -⟩ := TemplateProblem.directive.inj hproblem
    obtain ⟨f, hfailed, rfl, -⟩ :=
      hpage (anywhere "a\né <p :else>b</p>") ⟨"page"⟩ rfl (compile_anywhere h ⟨"page"⟩) true []
    exact ⟨_, rfl, rfl, rfl, before, piece, after, hsource, hspan, hprefix, hfailed⟩

end Run

end Stencil
