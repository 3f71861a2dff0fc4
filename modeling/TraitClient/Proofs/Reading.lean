import TraitClient.Proofs.LegibleCode
import TraitClient.Source.Parser.File

/-!
# What parsers take

`Reads p s a t` says that the parser `p` takes the tokens of `s` before `t` and yields `a`.  Parsers
are read as they are built: one after the other, with what the next tokens look like decided first.
-/
namespace TraitClient.Source

/-! ## Sizes -/

theorem TokenTree.listSize_append (s t : Tokens) :
    TokenTree.listSize (s ++ t) = TokenTree.listSize s + TokenTree.listSize t := by
  induction s with
  | nil => simp [TokenTree.listSize]
  | cons a s ih =>
    rw [List.cons_append, TokenTree.listSize, TokenTree.listSize, ih, Nat.add_assoc]

theorem listSize_le_separated (separator : Tokens) {items : List Tokens} {item : Tokens}
    (h : item ∈ items) :
    TokenTree.listSize item ≤ TokenTree.listSize (Code.separated separator items) := by
  induction items with
  | nil => cases h
  | cons a items ih =>
    cases items with
    | nil =>
      obtain rfl := List.mem_singleton.mp h
      exact le_rfl
    | cons b items =>
      rw [Code.separated, TokenTree.listSize_append, TokenTree.listSize_append]
      · rcases List.mem_cons.mp h with rfl | hRest
        · omega
        · have hLess := ih hRest
          omega
      · simp

namespace Parser

variable {α β : Type}

/-! ## Parsers in sequence -/

def Reads (p : Parser α) (s : Tokens) (a : α) (t : Tokens) : Prop := ∃ w, p s = some ⟨a, w, t⟩

def Takes (p : Parser α) (s t : Tokens) : Prop := ∃ a, Reads p s a t

theorem bind_apply (p : Parser α) (f : α → Parser β) (s : Tokens) :
    (p >>= f) s =
      match p s with
      | none => none
      | some a =>
        match f a.value a.rest with
        | none => none
        | some b => some ⟨b.value, a.written ++ b.written, b.rest⟩ := rfl

theorem Reads.takes {p : Parser α} {s t : Tokens} {a : α} (h : Reads p s a t) : Takes p s t := ⟨a, h⟩

theorem Reads.bind {p : Parser α} {f : α → Parser β} {s t u : Tokens} {a : α} {b : β}
    (hp : Reads p s a t) (hf : Reads (f a) t b u) : Reads (p >>= f) s b u := by
  obtain ⟨w, hp⟩ := hp
  obtain ⟨w', hf⟩ := hf
  exact ⟨w ++ w', by simp only [bind_apply, hp, hf]⟩

theorem Reads.then {p : Parser α} {f : α → Parser β} {s t u : Tokens} {a : α}
    (hp : Reads p s a t) (hf : Takes (f a) t u) : Takes (p >>= f) s u := by
  obtain ⟨b, hf⟩ := hf
  exact ⟨b, hp.bind hf⟩

theorem Takes.bind {p : Parser α} {f : α → Parser β} {s t u : Tokens} (hp : Takes p s t)
    (hf : ∀ a, Takes (f a) t u) : Takes (p >>= f) s u := by
  obtain ⟨a, hp⟩ := hp
  exact hp.then (hf a)

theorem reads_pure (a : α) (s : Tokens) : Reads (pure a) s a s := ⟨[], rfl⟩

theorem takes_pure (a : α) (s : Tokens) : Takes (pure a) s s := ⟨a, reads_pure a s⟩

theorem reads_rest (s : Tokens) : Reads rest s s s := ⟨[], rfl⟩

theorem reads_sees (peek : Tokens → Bool) (s : Tokens) : Reads (sees peek) s (peek s) s := ⟨[], rfl⟩

theorem reads_guard {b : Bool} (h : b = true) (s : Tokens) : Reads (guard b) s () s := by
  subst h
  exact reads_pure () s

theorem Takes.skip {p : Parser α} {s t : Tokens} (h : Takes p s t) : Reads (skip p) s () t := by
  obtain ⟨a, h⟩ := h
  exact h.bind (reads_pure () t)

theorem Takes.written {p : Parser α} {s t : Tokens} {a : α} (h : Reads p s a t) :
    ∃ w, Reads (written p) s (a, w) t := by
  obtain ⟨w, h⟩ := h
  exact ⟨w, w, by simp [Parser.written, h]⟩

theorem Reads.respelled {p : Parser (α × Tokens)} {s t w : Tokens} {a : α}
    (h : Reads p s (a, w) t) : Reads (respelled p) s a t := by
  obtain ⟨w', h⟩ := h
  exact ⟨w, by simp [Parser.respelled, h]⟩

theorem Reads.map {p : Parser α} {s t : Tokens} {a : α} (h : Reads p s a t) (f : α → β) :
    Reads (f <$> p) s (f a) t := h.bind (f := pure ∘ f) (reads_pure (f a) t)

theorem reads_ifSees {peek : Tokens → Bool} {p : Parser α} {s t : Tokens} {a : α}
    (hPeek : peek s = true) (h : Reads p s a t) : Reads (ifSees peek p) s (some a) t := by
  refine (reads_sees peek s).bind ?_
  rw [hPeek]
  exact h.map some

theorem reads_ifSees_none {peek : Tokens → Bool} {p : Parser α} {s : Tokens}
    (hPeek : peek s = false) : Reads (ifSees peek p) s none s := by
  refine (reads_sees peek s).bind ?_
  rw [hPeek]
  exact reads_pure none s

/-! ## Loops -/

/-- A step that is repeated yields some values one after the other, and then nothing.  Each time it
takes a token at least. -/
inductive Repeats (step : Parser (Option α)) : Tokens → List α → Tokens → Prop
  | nil {s t : Tokens} (h : Reads step s none t) : Repeats step s [] t
  | cons {s t u : Tokens} {a : α} {as : List α} (h : Reads step s (some a) t)
      (shorter : t.length < s.length) (more : Repeats step t as u) : Repeats step s (a :: as) u

theorem Repeats.reads {step : Parser (Option α)} {s t : Tokens} {as : List α}
    (h : Repeats step s as t) : Reads (many step) s as t := by
  have hFuel (fuel : Nat) (hEnough : s.length < fuel) : Reads (repeatAtMost step fuel) s as t := by
    induction h generalizing fuel with
    | nil h =>
      obtain ⟨fuel, rfl⟩ := Nat.exists_eq_add_one_of_ne_zero (Nat.ne_zero_of_lt hEnough)
      exact h.bind (reads_pure [] _)
    | cons h shorter _ ih =>
      obtain ⟨fuel, rfl⟩ := Nat.exists_eq_add_one_of_ne_zero (Nat.ne_zero_of_lt hEnough)
      exact h.bind ((ih fuel (by omega)).bind (reads_pure _ _))
  obtain ⟨w, hw⟩ := hFuel (s.length + 1) (Nat.lt_succ_self _)
  exact ⟨w, hw⟩

theorem Repeats.sees {peek : Tokens → Bool} {p : Parser α} {s t u : Tokens} {a : α} {as : List α}
    (hPeek : peek s = true) (h : Reads p s a t) (shorter : t.length < s.length)
    (more : Repeats (ifSees peek p) t as u) : Repeats (ifSees peek p) s (a :: as) u :=
  .cons (reads_ifSees hPeek h) shorter more

theorem Repeats.stops {peek : Tokens → Bool} {p : Parser α} {s : Tokens} (hPeek : peek s = false) :
    Repeats (ifSees peek p) s [] s := .nil (reads_ifSees_none hPeek)

theorem reads_whileSees_nil {peek : Tokens → Bool} {p : Parser α} {s : Tokens}
    (hPeek : peek s = false) : Reads (whileSees peek p) s [] s := (Repeats.stops hPeek).reads

/-- Items with separators between them, the last one up to where the list stops. -/
inductive Separates (separator : Parser Unit) (stop : Tokens → Bool) (item : Parser α) :
    Tokens → List α → Tokens → Prop
  | nil {s : Tokens} (h : stop s = true) : Separates separator stop item s [] s
  | last {s t : Tokens} {a : α} (starts : stop s = false) (h : Reads item s a t)
      (stops : stop t = true) : Separates separator stop item s [a] t
  | cons {s t u v : Tokens} {a : α} {as : List α} (starts : stop s = false) (h : Reads item s a t)
      (goesOn : stop t = false) (hSeparator : Reads separator t () u) (shorter : u.length < s.length)
      (more : Separates separator stop item u as v) : Separates separator stop item s (a :: as) v

theorem Separates.reads {separator : Parser Unit} {stop : Tokens → Bool} {item : Parser α}
    {s t : Tokens} {as : List α} (h : Separates separator stop item s as t) :
    Reads (separated separator stop item) s as t := by
  have hFuel (fuel : Nat) (hEnough : s.length < fuel) :
      Reads (separated.go separator stop item fuel) s as t := by
    induction h generalizing fuel with
    | @nil s h =>
      obtain ⟨fuel, rfl⟩ := Nat.exists_eq_add_one_of_ne_zero (Nat.ne_zero_of_lt hEnough)
      refine (reads_sees stop s).bind ?_
      rw [h]
      exact reads_pure [] s
    | @last s t a starts h stops =>
      obtain ⟨fuel, rfl⟩ := Nat.exists_eq_add_one_of_ne_zero (Nat.ne_zero_of_lt hEnough)
      refine (reads_sees stop s).bind ?_
      rw [starts]
      refine h.bind ((reads_sees stop t).bind ?_)
      rw [stops]
      exact reads_pure [a] t
    | @cons s t u v a as starts h goesOn hSeparator shorter _ ih =>
      obtain ⟨fuel, rfl⟩ := Nat.exists_eq_add_one_of_ne_zero (Nat.ne_zero_of_lt hEnough)
      refine (reads_sees stop s).bind ?_
      rw [starts]
      refine h.bind ((reads_sees stop t).bind ?_)
      rw [goesOn]
      exact hSeparator.bind ((ih fuel (by omega)).bind (reads_pure _ _))
  obtain ⟨w, hw⟩ := hFuel (s.length + 1) (Nat.lt_succ_self _)
  exact ⟨w, hw⟩

/-! ## Single tokens -/

@[simp] theorem length_operator (text : String) :
    (Tokens.operator text).length = text.toList.length := by
  unfold Tokens.operator
  induction text.toList with
  | nil => rfl
  | cons c chars ih =>
    cases chars with
    | nil => rfl
    | cons d chars => simpa [Tokens.ofOperatorChars] using ih

theorem takeChars_ofOperatorChars (chars : List Char) (t : Tokens) :
    takeChars chars (Tokens.ofOperatorChars chars ++ t) = some t := by
  induction chars with
  | nil => rfl
  | cons c chars ih =>
    cases chars with
    | nil => simp [takeChars, Tokens.ofOperatorChars]
    | cons d chars => simpa [takeChars, Tokens.ofOperatorChars] using ih

theorem peekChars_ofOperatorChars (chars : List Char) (t : Tokens) :
    peekChars chars (Tokens.ofOperatorChars chars ++ t) = true := by
  induction chars with
  | nil => rfl
  | cons c chars ih =>
    cases chars with
    | nil => simp [peekChars, Tokens.ofOperatorChars]
    | cons d chars => simpa [peekChars, Tokens.ofOperatorChars] using ih

theorem peekOp_operator (text : String) (t : Tokens) :
    peekOp text (Tokens.operator text ++ t) = true := peekChars_ofOperatorChars _ t

theorem reads_op (text : String) (t : Tokens) : Reads (op text) (Tokens.operator text ++ t) () t := by
  refine ⟨Tokens.operator text, ?_⟩
  simp only [op, Tokens.operator, takeChars_ofOperatorChars, Option.map_some]

theorem reads_opIf (text : String) (t : Tokens) :
    Reads (opIf text) (Tokens.operator text ++ t) true t := by
  refine (reads_sees _ _).bind ?_
  rw [peekOp_operator]
  exact (reads_op text t).bind (reads_pure true t)

theorem reads_opIf_false {text : String} {s : Tokens} (h : peekOp text s = false) :
    Reads (opIf text) s false s := by
  refine (reads_sees _ _).bind ?_
  rw [h]
  exact reads_pure false s

theorem reads_word (name : String) (t : Tokens) : Reads (word name) (.ident name :: t) () t := by
  refine ⟨[.ident name], ?_⟩
  simp only [word, beq_self_eq_true, if_true]

theorem reads_wordIf (name : String) (t : Tokens) :
    Reads (wordIf name) (.ident name :: t) true t := by
  refine (reads_sees _ _).bind ?_
  simp only [peekWord, beq_self_eq_true]
  exact (reads_word name t).bind (reads_pure true t)

theorem reads_wordIf_false {name : String} {s : Tokens} (h : peekWord name s = false) :
    Reads (wordIf name) s false s := by
  refine (reads_sees _ _).bind ?_
  rw [h]
  exact reads_pure false s

theorem reads_anyIdent (name : String) (t : Tokens) :
    Reads anyIdent (.ident name :: t) name t := ⟨_, rfl⟩

theorem reads_ident {name : String} (h : isPlainName name = true) (t : Tokens) :
    Reads ident (.ident name :: t) name t := by
  refine ⟨[.ident name], ?_⟩
  simp only [ident, h, if_true]

theorem reads_lifetime (name : String) (t : Tokens) :
    Reads lifetime (.punct '\'' true :: .ident name :: t) name t := ⟨_, rfl⟩

theorem reads_lit (text : String) (t : Tokens) : Reads lit (.literal text :: t) () t := ⟨_, rfl⟩

theorem reads_anyGroup (d : Delimiter) (body t : Tokens) :
    Reads anyGroup (.group d body :: t) (d, body) t := ⟨_, rfl⟩

theorem reads_group {p : Parser α} {body : Tokens} {a : α} (d : Delimiter) (h : Reads p body a [])
    (t : Tokens) : Reads (group d p) (.group d body :: t) a t := by
  obtain ⟨w, h⟩ := h
  refine ⟨[.group d w], ?_⟩
  simp only [group, if_true, h]

end Parser
end TraitClient.Source
