import Pron.Syntax.Parse

/-!
# What reading steps do

Three things are said of a step. `Gives` is its success: it leaves a node and no error. What a composed step gives is
what its parts give one after the other. `Ensures` is what success says: where no error is left there is a node, with
a property. `SettlesAt` is what holds in every case: the bound on the rounds is not reached, and no token is made up.
-/

namespace Pron

namespace Step

variable {α β : Type} {p : Step α} {f : α → Step β} {k : TokenKind} {xs ys zs : List Token} {a : α} {b : β} {n : Nat}

/-- The end of the list is read as the end of the text. -/
theorem ne_nil_of_kindOf (h : kindOf xs ≠ .eof) : xs ≠ [] := by
  rintro rfl
  exact h rfl

theorem length_pos_of_kindOf (h : kindOf xs ≠ .eof) : 0 < xs.length :=
  List.length_pos_iff.2 (ne_nil_of_kindOf h)

/-- A step and then a step that depends on its node. The errors of both are kept, and without a node the second is left
out. -/
theorem bind_eq (p : Step α) (f : α → Step β) (xs : List Token) :
    (p >>= f) xs = match p xs with
      | none => none
      | some ⟨none, errors, rest⟩ => some ⟨none, errors, rest⟩
      | some ⟨some a, errors, rest⟩ =>
        match f a rest with
        | none => none
        | some reply => some { reply with errors := errors ++ reply.errors } := rfl

/-- What comes behind a step without errors. -/
theorem bind_of_done (h : p xs = some ⟨some a, [], ys⟩) : (p >>= f) xs = f a ys := by
  rw [bind_eq, h]
  dsimp only
  cases f a ys <;> rfl

/-- The kind of the token in front, or of the end of the text. -/
theorem kind_bind_eq (f : TokenKind → Step β) (xs : List Token) : (kind >>= f) xs = f (kindOf xs) xs := bind_of_done rfl

theorem peek_bind_eq (f : TokenKind → Step β) (xs : List Token) : (peek >>= f) xs = f (kindOf xs.tail) xs :=
  bind_of_done rfl

theorem literal_bind_eq (f : String → Step β) (xs : List Token) :
    (literal >>= f) xs = f ((xs.head?.map Token.literal).getD "") xs := bind_of_done rfl

theorem advance_bind_eq (f : Unit → Step β) (xs : List Token) : (advance >>= f) xs = f () xs.tail := bind_of_done rfl

/-- A reply of two steps, one after the other, is that of the first one, if it left no node, or that of the second one
behind the first. -/
theorem bind_cases {r : Reply β} (h : (p >>= f) xs = some r) :
    (∃ errors ys, p xs = some ⟨none, errors, ys⟩ ∧ r = ⟨none, errors, ys⟩) ∨
      ∃ a errors ys r', p xs = some ⟨some a, errors, ys⟩ ∧ f a ys = some r' ∧
        r = ⟨r'.node, errors ++ r'.errors, r'.rest⟩ := by
  rw [bind_eq] at h
  split at h
  · cases h
  · next hp =>
    cases h
    exact .inl ⟨_, _, hp, rfl⟩
  · next hp =>
    split at h
    · cases h
    · next hf =>
      cases h
      exact .inr ⟨_, _, _, _, hp, hf, rfl⟩

/-- The token behind the one in front is of the kind that was asked for, and is passed. -/
theorem expect_of_eq (h : kindOf xs.tail = k) : expect k xs = some ⟨some (), [], xs.tail⟩ := by
  simp only [expect, bind_eq, peek, h, if_true]
  rfl

/-- The token behind the one in front is of another kind, and stays. -/
theorem expect_of_ne (h : kindOf xs.tail ≠ k) :
    expect k xs = some ⟨none, [.expected k (kindOf xs.tail)], xs⟩ := by
  simp only [expect, bind_eq, peek, h, if_false]
  rfl

/-! ## Success -/

/-- A step leaves a node and no error, and the property holds of what it leaves of the tokens. -/
def Gives (p : Step α) (xs : List Token) (a : α) (Q : List Token → Prop) : Prop :=
  ∃ ys, p xs = some ⟨some a, [], ys⟩ ∧ Q ys

/-- The last token passed is the current one, and `ys` comes after it. -/
def Behind (ys zs : List Token) : Prop := ∃ t, zs = t :: ys

namespace Gives

variable {P Q : List Token → Prop} {t : Token} {x : String}

theorem pure (h : Q xs) : Gives (Pure.pure a) xs a Q := ⟨xs, rfl, h⟩

/-- After a success the second step goes on where the first one stopped. -/
theorem bind_of (hp : Gives p xs a P) (hf : ∀ ys, P ys → Gives (f a) ys b Q) : Gives (p >>= f) xs b Q := by
  obtain ⟨ys, hp, hP⟩ := hp
  obtain ⟨zs, hf, hQ⟩ := hf ys hP
  refine ⟨zs, ?_, hQ⟩
  rw [bind_eq, hp]
  dsimp only
  rw [hf]
  rfl

/-- The usual case: the first step stops at its last token, whichever this is. -/
theorem bind (hp : Gives p xs a (Behind ys)) (hf : ∀ t, Gives (f a) (t :: ys) b Q) : Gives (p >>= f) xs b Q :=
  hp.bind_of fun _ ⟨t, hzs⟩ => hzs ▸ hf t

/-- A step that leaves the token behind its last one current. -/
theorem bind_at (hp : Gives p xs a (· = ys)) (hf : Gives (f a) ys b Q) : Gives (p >>= f) xs b Q :=
  hp.bind_of fun _ hzs => hzs ▸ hf

theorem pure_bind (h : Gives (f a) xs b Q) : Gives (Pure.pure a >>= f) xs b Q := bind_at ⟨xs, rfl, rfl⟩ h

/-- A success may depend on the kind of the token in front. -/
theorem kind_bind {f : TokenKind → Step β} (h : Gives (f (kindOf xs)) xs b Q) : Gives (kind >>= f) xs b Q :=
  bind_at ⟨xs, rfl, rfl⟩ h

theorem peek_bind {f : TokenKind → Step β} (h : Gives (f (kindOf xs)) (t :: xs) b Q) :
    Gives (peek >>= f) (t :: xs) b Q := bind_at ⟨t :: xs, rfl, rfl⟩ h

theorem literal_bind {line : Nat} {f : String → Step β} (h : Gives (f x) (⟨k, x, line⟩ :: xs) b Q) :
    Gives (literal >>= f) (⟨k, x, line⟩ :: xs) b Q := bind_at ⟨⟨k, x, line⟩ :: xs, rfl, rfl⟩ h

theorem advance_bind {f : Unit → Step β} (h : Gives (f ()) xs b Q) : Gives (advance >>= f) (t :: xs) b Q :=
  bind_at ⟨xs, rfl, rfl⟩ h

/-- The token that was asked for is there, so nothing is reported. -/
theorem expect_bind {f : Unit → Step β} (hk : kindOf xs = k) (h : Gives (f ()) xs b Q) :
    Gives (expect k >>= f) (t :: xs) b Q := bind_at ⟨xs, expect_of_eq hk, rfl⟩ h

/-- A success makes an attempt succeed. -/
theorem attempt_bind {f : Option α → Step β} (hp : Gives p xs a (Behind ys))
    (hf : ∀ t, Gives (f (some a)) (t :: ys) b Q) : Gives (attempt p >>= f) xs b Q := by
  obtain ⟨zs, hp, hzs⟩ := hp
  refine bind (a := some a) ⟨zs, ?_, hzs⟩ hf
  rw [attempt, hp]
  rfl

end Gives

/-! ## What success says -/

/-- Where a step leaves no error, it leaves a node with the property. -/
def Ensures (p : Step α) (xs : List Token) (Q : α → List Token → Prop) : Prop :=
  ∀ r, p xs = some r → r.errors = [] → ∃ a, r.node = some a ∧ Q a r.rest

namespace Ensures

variable {Q Q' : α → List Token → Prop} {R : β → List Token → Prop}

/-- What is ensured may be weakened. -/
theorem mono (h : Ensures p xs Q) (hQ : ∀ a ys, Q a ys → Q' a ys) : Ensures p xs Q' := by
  intro r hr herrors
  obtain ⟨a, hnode, ha⟩ := h r hr herrors
  exact ⟨a, hnode, hQ a _ ha⟩

/-- A node without a step ensures what holds of it. -/
theorem pure (h : Q a xs) : Ensures (Pure.pure a) xs Q := by
  rintro _ ⟨⟩ _
  exact ⟨a, rfl, h⟩

/-- Errors of either step stay, so without errors both have done what they ensure. -/
theorem bind (hp : Ensures p xs Q) (hf : ∀ a ys, Q a ys → Ensures (f a) ys R) : Ensures (p >>= f) xs R := by
  intro r hr herrors
  rw [bind_eq] at hr
  cases hpx : p xs with
  | none => rw [hpx] at hr; cases hr
  | some r' =>
    obtain ⟨_ | a, errors, ys⟩ := r'
    · rw [hpx] at hr
      cases hr
      obtain ⟨_, h, _⟩ := hp _ hpx herrors
      cases h
    · rw [hpx] at hr
      dsimp only at hr
      cases hfy : f a ys with
      | none => rw [hfy] at hr; cases hr
      | some r' =>
        rw [hfy] at hr
        cases hr
        obtain ⟨h, h'⟩ := List.append_eq_nil_iff.1 herrors
        obtain ⟨_, ⟨⟩, hQ⟩ := hp _ hpx h
        exact hf a ys hQ r' hfy h'

theorem pure_bind (h : Ensures (f a) xs R) : Ensures (Pure.pure a >>= f) xs R :=
  bind (Q := fun b ys => b = a ∧ ys = xs) (pure ⟨rfl, rfl⟩) fun _ _ ⟨hb, hy⟩ => hb ▸ hy ▸ h

/-- A step without a reply ensures everything. -/
theorem exhausted : Ensures (Step.exhausted : Step α) xs Q := nofun

/-- Nothing is asked of a step that leaves an error. -/
theorem report_bind {e : SyntaxError} {f : Unit → Step β} : Ensures (report e >>= f) xs R := by
  refine bind (Q := fun _ _ => False) ?_ fun _ _ h => h.elim
  rintro _ ⟨⟩ h
  cases h

theorem kind_bind {f : TokenKind → Step β} (h : Ensures (f (kindOf xs)) xs R) : Ensures (kind >>= f) xs R :=
  bind (Q := fun k ys => k = kindOf xs ∧ ys = xs) (by rintro _ ⟨⟩ _; exact ⟨_, rfl, rfl, rfl⟩)
    fun _ _ ⟨hk, hy⟩ => hk ▸ hy ▸ h

theorem peek_bind {f : TokenKind → Step β} (h : Ensures (f (kindOf xs.tail)) xs R) : Ensures (peek >>= f) xs R :=
  bind (Q := fun k ys => k = kindOf xs.tail ∧ ys = xs) (by rintro _ ⟨⟩ _; exact ⟨_, rfl, rfl, rfl⟩)
    fun _ _ ⟨hk, hy⟩ => hk ▸ hy ▸ h

theorem advance : Ensures advance xs fun _ ys => ys = xs.tail := by
  rintro _ ⟨⟩ _
  exact ⟨(), rfl, rfl⟩

theorem advance_bind {f : Unit → Step β} (h : Ensures (f ()) xs.tail R) : Ensures (Step.advance >>= f) xs R :=
  bind advance fun _ _ hy => hy ▸ h

/-- The literal of the current token, if there is one. -/
theorem literal_bind {f : String → Step β}
    (h : Ensures (f ((xs.head?.map Token.literal).getD "")) xs R) : Ensures (literal >>= f) xs R :=
  bind (Q := fun x ys => x = (xs.head?.map Token.literal).getD "" ∧ ys = xs)
    (by rintro _ ⟨⟩ _; exact ⟨_, rfl, rfl, rfl⟩) fun _ _ ⟨hx, hy⟩ => hx ▸ hy ▸ h

/-- Without an error the token was there. -/
theorem expect : Ensures (expect k) xs fun _ ys => kindOf xs.tail = k ∧ ys = xs.tail := by
  refine peek_bind ?_
  split
  · next h => exact advance.mono fun _ _ hy => ⟨h, hy⟩
  · exact report_bind

/-- What follows may rely on the token that was asked for. -/
theorem expect_bind {f : Unit → Step β} (h : kindOf xs.tail = k → Ensures (f ()) xs.tail R) :
    Ensures (Step.expect k >>= f) xs R :=
  bind expect fun _ _ ⟨hk, hy⟩ => hy ▸ h hk

/-- Without an error the attempt has succeeded, since a failure is reported. -/
theorem attempt_bind {f : Option α → Step β} (hp : Ensures p xs Q)
    (hf : ∀ a ys, Q a ys → Ensures (f (some a)) ys R) : Ensures (attempt p >>= f) xs R := by
  refine bind (Q := fun node ys => ∃ a, node = some a ∧ Q a ys) ?_ fun _ ys ⟨a, hnode, hQ⟩ => hnode ▸ hf a ys hQ
  intro r hr herrors
  rw [attempt, Option.map_eq_some_iff] at hr
  obtain ⟨r, hr, rfl⟩ := hr
  exact ⟨_, rfl, hp r hr herrors⟩

end Ensures

/-! ## What holds in every case -/

/-- A step has a reply, which leaves no more tokens than there were. -/
def SettlesAt (p : Step α) (xs : List Token) : Prop := ∃ r, p xs = some r ∧ r.rest.length ≤ xs.length

namespace SettlesAt

/-- A node without a step settles. -/
theorem pure (a : α) (xs : List Token) : SettlesAt (Pure.pure a) xs := ⟨_, rfl, Nat.le_refl _⟩

/-- What comes after a step may depend on the node that it left, and on what the step found there. -/
theorem bind_of (hp : SettlesAt p xs) (hf : ∀ a errors ys, p xs = some ⟨some a, errors, ys⟩ →
    ys.length ≤ xs.length → SettlesAt (f a) ys) : SettlesAt (p >>= f) xs := by
  obtain ⟨⟨_ | a, errors, ys⟩, hr, hlength⟩ := hp
  · refine ⟨⟨none, errors, ys⟩, ?_, hlength⟩
    rw [bind_eq, hr]
  · obtain ⟨⟨node, errors', zs⟩, hr', hlength'⟩ := hf a errors ys hr hlength
    refine ⟨⟨node, errors ++ errors', zs⟩, ?_, Nat.le_trans hlength' hlength⟩
    rw [bind_eq, hr]
    dsimp only
    rw [hr']

/-- Steps settle one after the other, the second one on what the first one leaves. -/
theorem bind (hp : SettlesAt p xs) (hf : ∀ a ys, ys.length ≤ xs.length → SettlesAt (f a) ys) :
    SettlesAt (p >>= f) xs := hp.bind_of fun a _ ys _ => hf a ys

theorem kind_bind {f : TokenKind → Step β} (h : SettlesAt (f (kindOf xs)) xs) : SettlesAt (kind >>= f) xs :=
  bind_of ⟨_, rfl, Nat.le_refl _⟩ fun _ _ _ hr _ => by cases hr; exact h

theorem peek_bind {f : TokenKind → Step β} (h : SettlesAt (f (kindOf xs.tail)) xs) : SettlesAt (peek >>= f) xs :=
  bind_of ⟨_, rfl, Nat.le_refl _⟩ fun _ _ _ hr _ => by cases hr; exact h

theorem literal_bind {f : String → Step β} (h : ∀ x, SettlesAt (f x) xs) : SettlesAt (literal >>= f) xs :=
  bind_of ⟨_, rfl, Nat.le_refl _⟩ fun _ _ _ hr _ => by cases hr; exact h _

theorem advance_bind {f : Unit → Step β} (h : SettlesAt (f ()) xs.tail) : SettlesAt (advance >>= f) xs :=
  bind_of ⟨_, rfl, by simp⟩ fun _ _ _ hr _ => by cases hr; exact h

/-- No token is given back. -/
theorem advance (xs : List Token) : SettlesAt advance xs := ⟨_, rfl, by simp⟩

/-- Nothing comes after an error that cannot be read on from. -/
theorem report_fail (e : SyntaxError) (xs : List Token) :
    SettlesAt (do report e; fail : Step α) xs := ⟨⟨none, [e], xs⟩, rfl, Nat.le_refl _⟩

theorem report_bind {e : SyntaxError} {f : Unit → Step β} (h : SettlesAt (f ()) xs) :
    SettlesAt (report e >>= f) xs :=
  bind_of ⟨_, rfl, Nat.le_refl _⟩ fun _ _ _ hr _ => by cases hr; exact h

/-- Where the token is not there the step stops with an error. -/
theorem expect_bind {f : Unit → Step β} (h : kindOf xs.tail = k → SettlesAt (f ()) xs.tail) :
    SettlesAt (expect k >>= f) xs := by
  by_cases hk : kindOf xs.tail = k
  · refine bind_of ⟨_, expect_of_eq hk, by simp⟩ ?_
    intro a errors ys hr _
    rw [expect_of_eq hk] at hr
    cases hr
    exact h hk
  · exact bind_of ⟨_, expect_of_ne hk, Nat.le_refl _⟩ fun _ _ _ hr _ => by rw [expect_of_ne hk] at hr; cases hr

/-- With the semicolon or without it, no token is given back. -/
theorem passSemicolon_bind {f : Unit → Step β} (h : ∀ ys, ys.length ≤ xs.length → SettlesAt (f ()) ys) :
    SettlesAt (passSemicolon >>= f) xs := by
  refine bind (peek_bind ?_) fun _ ys hys => h ys hys
  split
  · exact advance xs
  · exact pure () xs

theorem name (xs : List Token) : SettlesAt name xs := expect_bind fun _ => literal_bind fun x => pure x _

/-- A failed attempt stops where it failed, and what follows starts there. -/
theorem attempt_bind {f : Option α → Step β} (hp : SettlesAt p xs)
    (hf : ∀ a ys, ys.length ≤ xs.length → SettlesAt (f a) ys) : SettlesAt (attempt p >>= f) xs := by
  obtain ⟨r, hr, hlength⟩ := hp
  refine bind_of ⟨{ r with node := some r.node }, ?_, hlength⟩ ?_
  · rw [attempt, hr]
    rfl
  · intro a errors ys h _
    rw [attempt, hr] at h
    cases h
    exact hf _ _ hlength

end SettlesAt

end Step

end Pron
