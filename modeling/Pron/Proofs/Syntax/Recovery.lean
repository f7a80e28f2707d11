import Pron.Proofs.Syntax.Lockstep

/-!
# Recovery at semicolons

Outside of braces no handler moves behind a semicolon, however it fails. So what is read up to a semicolon, with all its
errors, does not depend on what comes after it, and reading goes on behind the semicolon as it would start there
(`parse_semicolon`). The induction is on the statements up to the semicolon (`Parse.statements_sealed`); each of them is
read in lockstep (`Step.Lockstep`) with and without the tokens behind the semicolon.
-/

namespace Pron

open Step

/-! ## Tokens up to a semicolon -/

/-- The last token is a semicolon, and none of the tokens before it opens a brace or marks the end of the source. -/
def Sealed (xs : List Token) : Prop :=
  ∃ as semi, xs = as ++ [semi] ∧ semi.kind = .semicolon ∧ ∀ t ∈ as, t.kind ≠ .lbrace ∧ t.kind ≠ .eof

namespace Sealed

variable {xs bs : List Token}

/-- Behind the first token is nothing, if it is the semicolon, or again tokens up to the semicolon. -/
theorem tail (h : Sealed xs) : Sealed xs.tail ∨ kindOf xs = .semicolon ∧ xs.tail = [] := by
  obtain ⟨as, semi, rfl, hsemi, has⟩ := h
  cases as with
  | nil => exact .inr ⟨hsemi, rfl⟩
  | cons t as => exact .inl ⟨as, semi, rfl, hsemi, fun u hu => has u (List.mem_cons_of_mem _ hu)⟩

theorem kind_ne (h : Sealed xs) : kindOf xs ≠ .lbrace ∧ kindOf xs ≠ .eof := by
  obtain ⟨as, semi, rfl, hsemi, has⟩ := h
  cases as with
  | nil =>
    have hk : kindOf ([] ++ [semi]) = .semicolon := hsemi
    rw [hk]
    exact ⟨nofun, nofun⟩
  | cons t as => exact has t List.mem_cons_self

theorem ne_nil (h : Sealed xs) : xs ≠ [] := ne_nil_of_kindOf h.kind_ne.2

theorem kindOf_append (h : Sealed xs) : kindOf (xs ++ bs) = kindOf xs := by
  obtain ⟨t, ts, rfl⟩ := List.exists_cons_of_ne_nil h.ne_nil
  rfl

theorem tail_append (h : Sealed xs) : (xs ++ bs).tail = xs.tail ++ bs := by
  obtain ⟨t, ts, rfl⟩ := List.exists_cons_of_ne_nil h.ne_nil
  rfl

/-- Handlers see the same with and without further tokens behind the semicolon. -/
theorem companion (hbs : kindOf bs ≠ .semicolon) : Companion fun xs ys => Sealed xs ∧ ys = xs ++ bs where
  kind h := h.2 ▸ h.1.kindOf_append
  literal {xs ys} h := by
    obtain ⟨t, ts, rfl⟩ := List.exists_cons_of_ne_nil h.1.ne_nil
    rw [h.2]
    rfl
  tail {xs ys} h hclear := ⟨h.1.tail.resolve_right fun hlast => hclear hlast.1, h.2 ▸ h.1.tail_append⟩
  semicolon {xs ys} h _ := by
    rw [h.2, h.1.tail_append]
    rcases h.1.tail with htail | ⟨_, hnil⟩
    · exact .inl ⟨htail, rfl⟩
    · rw [hnil]
      exact .inr ⟨nofun, hbs⟩
  brace h hk := absurd hk h.1.kind_ne.1

end Sealed

/-! ## The loop over statements -/

namespace Parse

variable {n n' m m' : Nat} {expr expr' : Precedence → Step Expr} {block block' : Step (List Stmt)}
  {ends : TokenKind → Bool} {xs bs : List Token}

section

variable (hn : n ≤ n') (hexpr : ∀ p xs, xs.length < n → SettlesAt (expr p) xs)
  (hblock : ∀ xs, 0 < xs.length → xs.length < n → SettlesAt block xs)
  (hexpr' : ∀ p xs ys, Sealed xs ∧ ys = xs ++ bs →
    Lockstep (fun xs ys => Sealed xs ∧ ys = xs ++ bs) (expr p) (expr' p) xs ys Clear)
  (hblock' : ∀ xs ys, Sealed xs ∧ ys = xs ++ bs → kindOf xs = .lbrace →
    Lockstep (fun xs ys => Sealed xs ∧ ys = xs ++ bs) block block' xs ys Clear)
  (hbs : kindOf bs ≠ .semicolon) (hends : ∀ k, ends k = true ↔ k = .eof)

include hn hexpr hblock hexpr' hblock' hbs hends

/-- Statements up to a semicolon, and what is read behind it. -/
theorem statements_sealed {r rest : Reply (List Stmt)} (hxs : Sealed xs ∨ xs = []) (hx : xs.length < n)
    (hr : statements n expr block ends m xs = some r)
    (hrest : ∀ k, bs.length < k → statements n' expr' block' ends k bs = some rest) (hm : xs.length + bs.length < m') :
    statements n' expr' block' ends m' (xs ++ bs) =
      some ⟨rest.node.map ((r.node.getD []) ++ ·), r.errors ++ rest.errors, rest.rest⟩ := by
  induction m generalizing m' xs r with
  | zero => cases hr
  | succ m ih =>
    rcases hxs with hxs | rfl
    · obtain ⟨m', rfl⟩ := Nat.exists_eq_add_of_lt hm
      have hgoes : ends (kindOf xs) = false := Bool.eq_false_iff.2 fun h => hxs.kind_ne.2 ((hends _).1 h)
      have hgoes' : ends (kindOf (xs ++ bs)) = false := hxs.kindOf_append ▸ hgoes
      rw [statements_of_not_ends hgoes, Option.bind_eq_some_iff] at hr
      obtain ⟨first, hfirst, hr⟩ := hr
      obtain ⟨more, hmore, rfl⟩ := Option.map_eq_some_iff.1 hr
      obtain ⟨zs, hfirst', ⟨hsealed, rfl⟩, -⟩ :=
        statement_lockstep (Sealed.companion hbs) hn hexpr' hblock' ⟨hxs, rfl⟩ first hfirst
      have hlength : first.rest.length ≤ xs.length := by
        obtain ⟨first', h, hlength⟩ := statement_settles hexpr hblock hx
        rw [hfirst] at h
        cases h
        exact hlength
      have hpos := List.length_pos_iff.2 hxs.ne_nil
      have htail := first.rest.length_tail
      have hgoal := @ih (xs.length + bs.length + m') _ _ (hsealed.tail.imp_right And.right) (by omega) hmore (by omega)
      obtain ⟨body, hbody⟩ := statements_node hmore
      rw [statements_of_not_ends hgoes', hfirst', Option.bind_some]
      dsimp only
      rw [hsealed.tail_append, hgoal, hbody]
      cases rest.node with
      | none => simp
      | some body' => simp
    · rw [statements_of_ends ((hends _).2 rfl)] at hr
      cases hr
      rw [List.nil_append, hrest m' (by omega)]
      obtain ⟨_ | body, errors, zs⟩ := rest <;> rfl

end

end Parse

/-- What is read up to a semicolon outside of braces, statements and errors, and what is read behind it do not depend
on each other. -/
theorem parse_semicolon {as bs : List Token} {semi : Token} (hsemi : semi.kind = .semicolon)
    (has : ∀ t ∈ as, t.kind ≠ .lbrace ∧ t.kind ≠ .eof) (hbs : kindOf bs ≠ .semicolon) :
    (parse (as ++ [semi] ++ bs)).program = (parse (as ++ [semi])).program ++ (parse bs).program ∧
      (parse (as ++ [semi] ++ bs)).errors = (parse (as ++ [semi])).errors ++ (parse bs).errors := by
  have hxs : Sealed (as ++ [semi]) := ⟨as, semi, rfl, hsemi, has⟩
  have hx := Nat.lt_succ_self (as ++ [semi]).length
  have hys := Nat.lt_succ_self (as ++ [semi] ++ bs).length
  have hb := Nat.lt_succ_self bs.length
  have hlength : (as ++ [semi] ++ bs).length = (as ++ [semi]).length + bs.length := List.length_append
  obtain ⟨r, hr, -⟩ := Parse.program_settles hx
  obtain ⟨rest, hrest, -⟩ := Parse.program_settles hb
  obtain ⟨hexpr, hblock⟩ := Parse.nested_settles ((as ++ [semi]).length + 1)
  obtain ⟨hexpr', hblock'⟩ := Parse.nested_lockstep (Sealed.companion hbs)
    (show (as ++ [semi]).length + 1 ≤ (as ++ [semi] ++ bs).length + 1 by omega)
  have hall : Parse.program ((as ++ [semi] ++ bs).length + 1) (as ++ [semi] ++ bs) = _ :=
    Parse.statements_sealed (by omega) hexpr hblock hexpr' hblock' hbs (fun k => beq_iff_eq) (.inl hxs) hx hr
      (fun k hk => (Parse.statements_rounds hb (by omega) hk).trans hrest) (by omega)
  obtain ⟨body, hbody⟩ := Parse.statements_node hr
  obtain ⟨body', hbody'⟩ := Parse.statements_node hrest
  rw [parse_of_reply hys hall, parse_of_reply hx hr, parse_of_reply hb hrest, hbody, hbody']
  exact ⟨rfl, rfl⟩

/-- `var a = f(1, x = (; y -`, which breaks off inside of a call, and again inside of parentheses. -/
def brokenTokens : List Token :=
  [⟨.kwVar, "var", 1⟩, ⟨.ident, "a", 1⟩, ⟨.assign, "=", 1⟩, ⟨.ident, "f", 1⟩, ⟨.lparen, "(", 1⟩, ⟨.int, "1", 1⟩,
    ⟨.comma, ",", 1⟩, ⟨.ident, "x", 1⟩, ⟨.assign, "=", 1⟩, ⟨.lparen, "(", 1⟩, ⟨.semicolon, ";", 1⟩, ⟨.ident, "y", 1⟩,
    ⟨.minus, "-", 1⟩]

/-- `) {`, and an end of the source that is not the last token. -/
def furtherTokens : List Token := [⟨.rparen, ")", 2⟩, ⟨.lbrace, "\x7b", 2⟩, .endOfSource 2, ⟨.ident, "z", 2⟩]

theorem brokenTokens_semicolon : let semi : Token := ⟨.semicolon, ";", 1⟩
    semi.kind = .semicolon ∧ (∀ t ∈ brokenTokens, t.kind ≠ .lbrace ∧ t.kind ≠ .eof) ∧
      kindOf furtherTokens ≠ .semicolon ∧
      (parse (brokenTokens ++ [semi] ++ furtherTokens)).program =
        (parse (brokenTokens ++ [semi])).program ++ (parse furtherTokens).program ∧
      (parse (brokenTokens ++ [semi] ++ furtherTokens)).errors =
        (parse (brokenTokens ++ [semi])).errors ++ (parse furtherTokens).errors := by
  have has : ∀ t ∈ brokenTokens, t.kind ≠ .lbrace ∧ t.kind ≠ .eof := by decide
  have hbs : kindOf furtherTokens ≠ .semicolon := by decide
  exact ⟨rfl, has, hbs, parse_semicolon rfl has hbs⟩

end Pron
