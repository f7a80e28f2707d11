import Pron.Proofs.Privacy.Evaluation

/-!
# Private methods

A private method that nothing else in its class mentions is out of reach: programs that differ only in such a method do
the same (`Secret.unobserved`). The two runs are twins from the start of a session on, where no object is within reach
and one frame is outside.

The text around the class must keep the name of the method out of the places where the language evaluates it inside an
instance, first of all the arguments of method calls: these are evaluated in the frame of the object, where the private
methods are in scope (`Secret.echoed`).
-/

namespace Pron

namespace Secret

variable {S : Secret} {library library' : Library} {p p' : Program}

/-- At the start the frame of the session is outside, and there are no objects. -/
def World.start : World where
  object _ _ := False
  frame side E := side = .outside ∧ E = Session.start.frame

theorem stores_start : S.Stores .start Session.start.store Session.start.store where
  size := rfl
  frames := rfl
  requests := rfl
  printed := .same _
  object := nofun
  has h := by
    obtain ⟨_, rfl⟩ := h
    exact Nat.zero_lt_one
  apart := nofun
  parent h hP := by
    obtain ⟨_, rfl⟩ := h
    cases hP
  binding h hb := by
    obtain ⟨_, rfl⟩ := h
    cases hb

/-- Programs that differ only in private methods, with units that differ only so, ask for the same units, and what is
seen of their outcomes and what they print is the same, except that a displayed function that holds the statement of the
class shows its own text. Nothing is excepted if no function and no left side of an assignment holds that statement. -/
theorem unobserved (hmethod : S.method ≠ Eval.initName) (hlibrary : S.AlikeLibrary library library')
    (hp : S.AlikeBlock p p') :
    let r := Session.start.run library p
    let r' := Session.start.run library' p'
    r'.2.store.requests = r.2.store.requests ∧
      S.ShownSeen (r.1.seen r.2.store) (r'.1.seen r'.2.store) ∧ S.Shown r.2.store.printed r'.2.store.printed ∧
      (¬S.nested → r'.1.seen r'.2.store = r.1.seen r.2.store ∧ r'.2.store.printed = r.2.store.printed) := by
  have hrun : S.ShownSeen ((Session.start.run library p).1.seen (Session.start.run library p).2.store)
        ((Session.start.run library' p').1.seen (Session.start.run library' p').2.store) ∧
      ∃ w, S.Stores w (Session.start.run library p).2.store (Session.start.run library' p').2.store := by
    have hstart : World.start.frame .outside Session.start.frame := ⟨rfl, rfl⟩
    have h := Twin.program (Twin.expr hlibrary hmethod Session.depth) hp hstart trivial stores_start
    unfold Session.run Outcome.of
    dsimp only
    generalize Eval.program (Eval.expr library Session.depth) p Session.start.frame Session.start.store = a at h
    generalize Eval.program (Eval.expr library' Session.depth) p' Session.start.frame Session.start.store = b at h
    cases h with
    | ok _ hs hv => exact ⟨.value (hs.describe hv), _, hs⟩
    | error _ hs hstop =>
      cases hstop with
      | returned hv => exact ⟨.returned (hs.describe hv), _, hs⟩
      | failed he => exact ⟨.failed he.message, _, hs⟩
      | tooDeep => exact ⟨.tooDeep, _, hs⟩
  obtain ⟨hseen, w, hs⟩ := hrun
  exact ⟨hs.requests, hseen, hs.printed, fun hnested => ⟨(hseen.eq hnested).symm, (hs.printed.eq hnested).symm⟩⟩

/-- A class with a number, a private method and a method that adds to the number, and a call of the latter. -/
def adding (body : List Stmt) : Program :=
  [.classDecl ⟨"Box", [⟨"n", .integer 7⟩], [⟨"hidden", ⟨[], body⟩, false⟩,
      ⟨"Add", ⟨["x"], [.ret (.binary .add (.name "x") (.name "n"))]⟩, true⟩], none⟩,
    .var "hidden" (.new "Box" []), .expr (.methodCall "hidden" "Add" [.integer 2])]

/-- The method of this class, with a program that keeps out of the frames of its instances altogether. -/
def hiddenMethod : Secret := ⟨"hidden", fun _ => False, fun _ => False, False⟩

theorem adding_alike (body body' : List Stmt) : hiddenMethod.AlikeBlock (adding body) (adding body') := by
  have hallows {x : String} (hx : x ≠ "hidden" ∧ x ≠ "Init") : hiddenMethod.Allows (.name x) := hx
  have hmentions : hiddenMethod.Permits .inside [.name "Add", .name "x", .name "x", .name "n"] := by
    intro m hm
    simp only [List.mem_cons, List.not_mem_nil, or_false] at hm
    rcases hm with rfl | rfl | rfl | rfl <;> exact hallows (by decide)
  have hadd : hiddenMethod.AlikeFunction ⟨["x"], [.ret (.binary .add (.name "x") (.name "n"))]⟩
      ⟨["x"], [.ret (.binary .add (.name "x") (.name "n"))]⟩ :=
    .mk ["x"] (.cons (.ret (.binary .add (.name "x") (.name "n") nofun)) .nil) (.inr rfl)
  have hbox := AlikeClass.secretive (S := hiddenMethod) "Box" (.cons (.mk "n" (.integer 7)) .nil)
    (List.forall_mem_singleton.2 ⟨by decide, nofun⟩)
    (.cons (.hidden ⟨[], body⟩ ⟨[], body'⟩) (.cons (.other (.mk "Add" true hadd) hmentions) .nil)) .none nofun
  refine .cons (.classDecl hbox) (.cons (.var "hidden" (.new "Box" .nil nofun)) (.cons (.expr ?_) .nil))
  exact .methodCall "hidden" "Add" (.cons (.integer 2) .nil) nofun

theorem adding_unobserved :
    let body : List Stmt := [.ret (.integer 1)]
    let body' : List Stmt := [.expr (.call (.name "print") [.text "never"]), .ret (.name "hidden")]
    hiddenMethod.method ≠ Eval.initName ∧ hiddenMethod.AlikeLibrary (.ofUnits []) (.ofUnits []) ∧
      hiddenMethod.AlikeBlock (adding body) (adding body') ∧ ¬hiddenMethod.nested ∧
      let r := Session.start.run (.ofUnits []) (adding body)
      let r' := Session.start.run (.ofUnits []) (adding body')
      r'.1.seen r'.2.store = r.1.seen r.2.store ∧ r'.2.store.printed = r.2.store.printed ∧
        r.1.seen r.2.store = .value "INTEGER(9)" := by
  intro body body'
  have hmethod : hiddenMethod.method ≠ Eval.initName := by decide
  have hlibrary : hiddenMethod.AlikeLibrary (.ofUnits []) (.ofUnits []) := fun _ => .none _ _
  have halike := adding_alike body body'
  obtain ⟨-, -, -, hequal⟩ := unobserved hmethod hlibrary halike
  obtain ⟨hseen, hprinted⟩ := hequal id
  exact ⟨hmethod, hlibrary, halike, id, hseen, hprinted, by decide +kernel⟩

/-- The arguments of a method call are evaluated in the frame of the object, wherever the call stands. So a private
method can be called from there, although nothing else in its class mentions it. -/
theorem echoed :
    ¬∀ (library : Library) (className : String) (fields : List FieldDecl) (method : String) (parameters : List String)
      (body body' : List Stmt) (others : List FunctionDecl) (init : Option Constructor) (outside : List Stmt),
      isPublicName method = false →
      .name method ∉ fieldMentions fields ++ (methodMentions others ++ initMentions init) →
      let program (body : List Stmt) : Program :=
        .classDecl ⟨className, fields, ⟨method, ⟨parameters, body⟩, false⟩ :: others, init⟩ :: outside
      let r := Session.start.run library (program body)
      let r' := Session.start.run library (program body')
      r'.1.seen r'.2.store = r.1.seen r.2.store ∧ r'.2.store.printed = r.2.store.printed := by
  intro h
  have hsame := h (.ofUnits []) "C" [] "secret" [] [.ret (.integer 1)] [.ret (.integer 2)]
    [⟨"Echo", ⟨["x"], [.ret (.name "x")]⟩, true⟩] none
    [.var "c" (.new "C" []), .expr (.methodCall "c" "Echo" [.call (.name "secret") []])] (by decide +kernel) (by decide)
  exact absurd hsame.1 (by decide +kernel)

end Secret

end Pron
