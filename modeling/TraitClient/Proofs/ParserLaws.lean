import TraitClient.Proofs.LexedNames
import TraitClient.Proofs.Reading

/-!
# What parsers leave and yield

A parser that takes tokens from the front leaves named tokens where it was given named ones.  Most
parsers are built from such parsers alone, so that this is found by instances: each combinator has
one, and each part of the grammar needs its definition unfolded.  `Yields p P` says besides that what
the parser yields has a property.
-/
namespace TraitClient.Source.Parser

variable {α β : Type}

/-- From these tokens on the parser leaves named tokens and yields what has the property. -/
def YieldsAt (p : Parser α) (s : Tokens) (P : α → Prop) : Prop :=
  ∀ r, p s = some r → AllNamed r.rest ∧ P r.value

def Yields (p : Parser α) (P : α → Prop) : Prop := ∀ s, AllNamed s → YieldsAt p s P

class Leaves (p : Parser α) : Prop where
  yields : Yields p fun _ => True

/-! ## Parsers in sequence -/

section Sequences

variable {p q : Parser α} {f : α → Parser β} {P Q : α → Prop} {R : β → Prop} {s : Tokens}

theorem YieldsAt.of_reads {t : Tokens} {a : α} (h : YieldsAt p s P) (hr : Reads p s a t) :
    AllNamed t ∧ P a := by
  obtain ⟨w, hr⟩ := hr
  exact h _ hr

theorem Reads.of_bind {u : Tokens} {b : β} (h : Reads (p >>= f) s b u) :
    ∃ a t, Reads p s a t ∧ Reads (f a) t b u := by
  obtain ⟨w, h⟩ := h
  rw [bind_apply] at h
  cases hFirst : p s with
  | none =>
    rw [hFirst] at h
    cases h
  | some a =>
    rw [hFirst] at h
    dsimp only at h
    cases hSecond : f a.value a.rest with
    | none =>
      rw [hSecond] at h
      cases h
    | some b =>
      rw [hSecond] at h
      cases h
      exact ⟨_, _, ⟨_, hFirst⟩, _, hSecond⟩

theorem YieldsAt.imp (h : YieldsAt p s P) (hImp : ∀ a, P a → Q a) : YieldsAt p s Q := fun r hr =>
  ⟨(h r hr).1, hImp _ (h r hr).2⟩

theorem Yields.imp (h : Yields p P) (hImp : ∀ a, P a → Q a) : Yields p Q := fun s hs =>
  (h s hs).imp hImp

theorem Yields.leaves (h : Yields p P) : Leaves p := ⟨h.imp fun _ _ => trivial⟩

theorem YieldsAt.bind (hp : YieldsAt p s P) (hf : ∀ a, P a → Yields (f a) R) :
    YieldsAt (p >>= f) s R := by
  intro r hr
  obtain ⟨a, t, hFirst, hSecond⟩ := Reads.of_bind ⟨_, hr⟩
  obtain ⟨hRest, hValue⟩ := hp.of_reads hFirst
  exact (hf a hValue t hRest).of_reads hSecond

theorem Yields.bind (hp : Yields p P) (hf : ∀ a, P a → Yields (f a) R) : Yields (p >>= f) R :=
  fun s hs => (hp s hs).bind hf

theorem Leaves.named [h : Leaves p] {t : Tokens} {a : α} (hs : AllNamed s) (hr : Reads p s a t) :
    AllNamed t := ((h.yields s hs).of_reads hr).1

theorem Leaves.bind [h : Leaves p] (hf : ∀ a, Yields (f a) R) : Yields (p >>= f) R :=
  h.yields.bind fun a _ => hf a

theorem yields_pure {a : α} (h : P a) : Yields (pure a) P := by
  rintro s hs r ⟨⟩
  exact ⟨hs, h⟩

theorem yields_fail : Yields (fail : Parser α) P := fun s hs r hr => by cases hr

theorem Yields.ite {c : Prop} [Decidable c] (hp : c → Yields p P) (hq : ¬c → Yields q P) :
    Yields (if c then p else q) P := by
  split
  · exact hp ‹_›
  · exact hq ‹_›

theorem Reads.of_looks_bind {a : α} {w u : Tokens} {b : β} (hp : p s = some ⟨a, w, s⟩)
    (h : Reads (p >>= f) s b u) : Reads (f a) s b u := by
  obtain ⟨a', t, ⟨w', hFirst⟩, hSecond⟩ := h.of_bind
  rw [hp] at hFirst
  cases hFirst
  exact hSecond

theorem yieldsAt_bind_of_looks {a : α} {w : Tokens} (hp : p s = some ⟨a, w, s⟩)
    (hf : YieldsAt (f a) s R) : YieldsAt (p >>= f) s R := fun _ hr =>
  hf.of_reads (Reads.of_looks_bind hp ⟨_, hr⟩)

theorem yieldsAt_rest_bind {f : Tokens → Parser β} (h : YieldsAt (f s) s R) :
    YieldsAt (rest >>= f) s R := yieldsAt_bind_of_looks rfl h

theorem yieldsAt_guard_bind {b : Bool} {f : Unit → Parser β} (h : b = true → YieldsAt (f ()) s R) :
    YieldsAt (guard b >>= f) s R := by
  cases b with
  | false =>
    intro r hr
    cases hr
  | true => exact yieldsAt_bind_of_looks rfl (h rfl)

theorem YieldsAt.ite {c : Prop} [Decidable c] (hp : c → YieldsAt p s P) (hq : ¬c → YieldsAt q s P) :
    YieldsAt (if c then p else q) s P := by
  split
  · exact hp ‹_›
  · exact hq ‹_›

theorem yields_rest_bind {f : Tokens → Parser β} (h : ∀ s, AllNamed s → YieldsAt (f s) s R) :
    Yields (rest >>= f) R := fun s hs => yieldsAt_rest_bind (h s hs)

theorem yields_sees_bind {peek : Tokens → Bool} {f : Bool → Parser β}
    (h : ∀ s, AllNamed s → YieldsAt (f (peek s)) s R) : Yields (sees peek >>= f) R := fun s hs =>
  yieldsAt_rest_bind (f := fun s => f (peek s)) (h s hs)

theorem Yields.map (h : Yields p P) {f : α → β} (hf : ∀ a, P a → R (f a)) : Yields (f <$> p) R :=
  h.bind (f := pure ∘ f) fun a ha => yields_pure (hf a ha)

theorem Yields.or (hp : Yields p P) (hq : Yields q P) : Yields (or p q) P := by
  intro s hs r hr
  unfold Parser.or at hr
  cases hFirst : p s with
  | some a =>
    rw [hFirst] at hr
    cases hr
    exact hp s hs _ hFirst
  | none =>
    rw [hFirst] at hr
    exact hq s hs r hr

theorem Yields.written (h : Yields p P) : Yields (written p) fun a => P a.1 := by
  intro s hs r hr
  obtain ⟨a, hFirst, rfl⟩ := Option.map_eq_some_iff.mp hr
  exact h s hs a hFirst

theorem Yields.respelled {p : Parser (α × Tokens)} (h : Yields p fun a => P a.1) :
    Yields (respelled p) P := by
  intro s hs r hr
  obtain ⟨a, hFirst, rfl⟩ := Option.map_eq_some_iff.mp hr
  exact h s hs a hFirst

theorem Yields.when (h : Yields p P) (b : Bool) : Yields (when b p) fun o => ∀ a ∈ o, P a := by
  cases b with
  | false => exact yields_pure (by simp)
  | true => exact h.map (by simp)

theorem Yields.ifSees (h : Yields p P) (peek : Tokens → Bool) :
    Yields (ifSees peek p) fun o => ∀ a ∈ o, P a :=
  yields_sees_bind fun s hs => h.when (peek s) s hs

end Sequences

section Instances

variable {p q : Parser α}

instance (a : α) : Leaves (pure a : Parser α) := ⟨yields_pure trivial⟩

instance : Leaves (fail : Parser α) := ⟨yields_fail⟩

instance {f : α → Parser β} [Leaves p] [h : ∀ a, Leaves (f a)] : Leaves (p >>= f) :=
  ⟨Leaves.bind fun a => (h a).yields⟩

theorem leaves_bind {f : α → Parser β} (hp : Leaves p) (h : ∀ a, Leaves (f a)) : Leaves (p >>= f) :=
  inferInstance

theorem leaves_ite {c : Prop} [Decidable c] (hp : Leaves p) (hq : Leaves q) :
    Leaves (if c then p else q) := ⟨.ite (fun _ => hp.yields) fun _ => hq.yields⟩

instance {c : Prop} [Decidable c] [hp : Leaves p] [hq : Leaves q] : Leaves (if c then p else q) :=
  leaves_ite hp hq

instance : Leaves rest := ⟨fun s hs r hr => by
  cases hr
  exact ⟨hs, trivial⟩⟩

instance (peek : Tokens → Bool) : Leaves (sees peek) := ⟨fun s hs r hr => by
  cases hr
  exact ⟨hs, trivial⟩⟩

instance (b : Bool) : Leaves (guard b) := by unfold guard; infer_instance

instance (f : α → β) [h : Leaves p] : Leaves (f <$> p) := ⟨h.yields.map fun _ _ => trivial⟩

instance [hp : Leaves p] [hq : Leaves q] : Leaves (or p q) := ⟨hp.yields.or hq.yields⟩

instance [h : Leaves p] : Leaves (written p) := ⟨h.yields.written⟩

instance {p : Parser (α × Tokens)} [h : Leaves p] : Leaves (respelled p) := ⟨h.yields.respelled⟩

instance (b : Bool) [Leaves p] : Leaves (when b p) := by unfold when; infer_instance

instance (peek : Tokens → Bool) [Leaves p] : Leaves (ifSees peek p) := by unfold ifSees; infer_instance

instance [Leaves p] : Leaves (skip p) := by unfold skip; infer_instance

end Instances

/-! ## Loops -/

section Loops

variable {P : α → Prop}

theorem Yields.many {step : Parser (Option α)} (h : Yields step fun o => ∀ a ∈ o, P a) :
    Yields (many step) fun as => ∀ a ∈ as, P a := by
  have hFuel (fuel : Nat) : Yields (repeatAtMost step fuel) fun as => ∀ a ∈ as, P a := by
    induction fuel with
    | zero => exact yields_fail
    | succ fuel ih =>
      refine h.bind fun o ho => ?_
      cases o with
      | none => exact yields_pure (by simp)
      | some a =>
        exact ih.bind fun as has => yields_pure (List.forall_mem_cons.mpr ⟨ho a rfl, has⟩)
  exact fun s hs => hFuel (s.length + 1) s hs

theorem Yields.whileSees {p : Parser α} (h : Yields p P) (peek : Tokens → Bool) :
    Yields (whileSees peek p) fun as => ∀ a ∈ as, P a := (h.ifSees peek).many

theorem Yields.separated {item : Parser α} (h : Yields item P) (separator : Parser Unit)
    [Leaves separator] (stop : Tokens → Bool) :
    Yields (separated separator stop item) fun as => ∀ a ∈ as, P a := by
  have hFuel (fuel : Nat) :
      Yields (separated.go separator stop item fuel) fun as => ∀ a ∈ as, P a := by
    induction fuel with
    | zero => exact yields_fail
    | succ fuel ih =>
      refine Leaves.bind fun stops => .ite (fun _ => yields_pure (by simp)) fun _ => ?_
      refine h.bind fun a ha => Leaves.bind fun stops => .ite (fun _ => ?_) fun _ => ?_
      · exact yields_pure (by simpa using ha)
      · exact Leaves.bind fun _ => ih.bind fun as has =>
          yields_pure (List.forall_mem_cons.mpr ⟨ha, has⟩)
  exact fun s hs => hFuel (s.length + 1) s hs

instance {step : Parser (Option α)} [h : Leaves step] : Leaves (many step) :=
  (h.yields.imp (Q := fun o => ∀ a ∈ o, True) fun _ _ _ _ => trivial).many.leaves

instance {p : Parser α} [h : Leaves p] (peek : Tokens → Bool) : Leaves (whileSees peek p) :=
  (h.yields.whileSees peek).leaves

instance {item : Parser α} [h : Leaves item] {separator : Parser Unit} [Leaves separator]
    (stop : Tokens → Bool) : Leaves (separated separator stop item) :=
  (h.yields.separated separator stop).leaves

end Loops

/-! ## Single tokens -/

theorem takeChars_named {chars : List Char} {s t : Tokens} (hs : AllNamed s)
    (h : takeChars chars s = some t) : AllNamed t := by
  induction chars generalizing s with
  | nil =>
    cases h
    exact hs
  | cons c chars ih =>
    cases s with
    | nil => cases chars <;> cases h
    | cons token s =>
      cases token with
      | punct d joint =>
        cases chars with
        | nil =>
          rw [takeChars] at h
          split at h
          · cases h
            exact hs.tail
          · cases h
        | cons e chars =>
          rw [takeChars] at h
          · split at h
            · exact ih hs.tail h
            · cases h
          · simp
      | ident | literal | group => cases chars <;> cases h

instance (text : String) : Leaves (op text) := ⟨fun s hs r hr => by
  obtain ⟨t, hTake, rfl⟩ := Option.map_eq_some_iff.mp hr
  exact ⟨takeChars_named hs hTake, trivial⟩⟩

instance (text : String) : Leaves (opIf text) := by unfold opIf; infer_instance

theorem yieldsAt_opIf_bind {text : String} {f : Bool → Parser β} {R : β → Prop} {s : Tokens}
    (hs : AllNamed s) (hThere : Yields (f true) R)
    (hNot : peekOp text s = false → YieldsAt (f false) s R) : YieldsAt (opIf text >>= f) s R := by
  cases hPeek : peekOp text s with
  | false =>
    have hLooks : opIf text s = some ⟨false, [], s⟩ := by
      unfold opIf
      rw [bind_apply, sees, hPeek]
      rfl
    exact yieldsAt_bind_of_looks hLooks (hNot hPeek)
  | true =>
    have hTrue : YieldsAt (opIf text) s (· = true) := by
      unfold opIf
      refine yieldsAt_bind_of_looks rfl ?_
      rw [hPeek]
      refine .ite (fun _ => ?_) fun h => absurd rfl h
      exact Leaves.bind (p := op text) (fun _ => yields_pure (P := (· = true)) rfl) s hs
    exact hTrue.bind fun b hb => hb ▸ hThere

theorem yieldsAt_anyIdent {s : Tokens} (hs : AllNamed s) :
    YieldsAt anyIdent s fun name => (Code.Word.ident name).isToken = true ∧ ∃ t, s = .ident name :: t := by
  intro r hr
  unfold anyIdent at hr
  split at hr
  · rename_i name t
    cases hr
    exact ⟨hs.tail, hs.isToken, t, rfl⟩
  · cases hr

instance : Leaves anyIdent := ⟨fun _ hs => (yieldsAt_anyIdent hs).imp fun _ _ => trivial⟩

theorem yieldsAt_ident {s : Tokens} (hs : AllNamed s) :
    YieldsAt ident s fun name => (Code.Word.ident name).isToken = true ∧ isPlainName name = true ∧
      ∃ t, s = .ident name :: t := by
  intro r hr
  unfold ident at hr
  split at hr
  · rename_i name t
    split at hr
    · rename_i hPlain
      cases hr
      exact ⟨hs.tail, hs.isToken, hPlain, t, rfl⟩
    · cases hr
  · cases hr

instance : Leaves ident := ⟨fun _ hs => (yieldsAt_ident hs).imp fun _ _ => trivial⟩

instance (text : String) : Leaves (word text) := ⟨fun s hs r hr => by
  unfold word at hr
  split at hr
  · split at hr
    · cases hr
      exact ⟨hs.tail, trivial⟩
    · cases hr
  · cases hr⟩

instance (text : String) : Leaves (wordIf text) := by unfold wordIf; infer_instance

theorem yields_lifetime : Yields lifetime fun name => (Code.Word.ident name).isToken = true := by
  intro s hs r hr
  unfold lifetime at hr
  split at hr
  · cases hr
    exact ⟨hs.tail.tail, hs.tail.isToken⟩
  · cases hr

instance : Leaves lifetime := yields_lifetime.leaves

instance : Leaves lit := ⟨fun s hs r hr => by
  unfold lit at hr
  split at hr
  · cases hr
    exact ⟨hs.tail, trivial⟩
  · split at hr
    · cases hr
      exact ⟨hs.tail, trivial⟩
    · cases hr
  · split at hr
    · cases hr
      exact ⟨hs.tail.tail, trivial⟩
    · cases hr
  · cases hr⟩

/-! ## Groups -/

theorem Yields.group {p : Parser α} {P : α → Prop} (h : Yields p P) (d : Delimiter) :
    Yields (group d p) P := by
  intro s hs r hr
  unfold Parser.group at hr
  split at hr
  · split at hr
    · split at hr
      · rename_i hBody
        cases hr
        exact ⟨hs.tail, (h _ hs.body _ hBody).2⟩
      · cases hr
    · cases hr
  · cases hr

instance {p : Parser α} [h : Leaves p] (d : Delimiter) : Leaves (group d p) := (h.yields.group d).leaves

instance {p : Parser α} [Leaves p] : Leaves (parens p) := by unfold parens; infer_instance

instance {p : Parser α} [Leaves p] : Leaves (braces p) := by unfold braces; infer_instance

instance {p : Parser α} [Leaves p] : Leaves (brackets p) := by unfold brackets; infer_instance

instance : Leaves anyGroup := ⟨fun s hs r hr => by
  unfold anyGroup at hr
  split at hr
  · cases hr
    exact ⟨hs.tail, trivial⟩
  · cases hr⟩

instance : Leaves comma := by unfold comma; infer_instance

instance {item : Parser α} [Leaves item] : Leaves (commaList item) := by unfold commaList; infer_instance

instance {item : Parser α} [Leaves item] : Leaves (toEnd item) := by unfold toEnd; infer_instance

theorem Yields.run? {p : Parser α} {P : α → Prop} (h : Yields p P) {s : Tokens} (hs : AllNamed s)
    {a : α} (ha : run? p s = some a) : P a := by
  unfold Parser.run? at ha
  split at ha
  · rename_i hRun
    cases ha
    exact (h s hs _ hRun).2
  · cases ha

end TraitClient.Source.Parser
