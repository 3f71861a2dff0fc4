import Mathlib.Data.String.Basic
import TraitClient.Json.Reader
import TraitClient.Json.Writer

/-!
# The text of documents

The reader takes the text of a document without numbers for that document, whatever follows it, so
that different documents have different texts.
-/
namespace TraitClient.Json

variable {fuel depth : Nat} {s r cs : List Char}

/-! ## Strings -/

theorem hexDigits_of_control : ∀ n < 32, Text.hexDigit? (hexDigit (n / 16)) = some (n / 16) ∧
    Text.hexDigit? (hexDigit n) = some (n % 16) := by decide +kernel

theorem escape?_control {c : Char} (h : c.toNat < 32) :
    escape? ('u' :: '0' :: '0' :: hexDigit (c.toNat / 16) :: hexDigit c.toNat :: r) =
      some (c, r) := by
  obtain ⟨hHigh, hLow⟩ := hexDigits_of_control c.toNat h
  have hZero : Text.hexDigit? '0' = some 0 := by decide
  have hNumber : hex4? ('0' :: '0' :: hexDigit (c.toNat / 16) :: hexDigit c.toNat :: r) =
      some (c.toNat, r) := by
    simp only [hex4?, hZero, hHigh, hLow, Option.bind_eq_bind, Option.bind_some,
      Option.some.injEq, Prod.mk.injEq, and_true]
    omega
  rw [escape?, hNumber]
  simp only [Option.bind_eq_bind, Option.bind_some]
  rw [if_neg (by omega), if_neg (by omega), Char.ofNat_toNat]

theorem escapeChar_spec (c : Char) :
    (escapeChar c = [c] ∧ c ≠ '"' ∧ c ≠ '\\' ∧ ¬c.toNat < 32) ∨
      ∃ form, escapeChar c = '\\' :: form ∧ ∀ r, escape? (form ++ r) = some (c, r) := by
  have hShort (n : Nat) (h : c.toNat = n) : Char.ofNat n = c := by rw [← h, Char.ofNat_toNat]
  unfold escapeChar
  split
  · subst c; exact .inr ⟨['"'], rfl, fun _ => rfl⟩
  split
  · subst c; exact .inr ⟨['\\'], rfl, fun _ => rfl⟩
  split
  · subst c; exact .inr ⟨['n'], rfl, fun _ => rfl⟩
  split
  · subst c; exact .inr ⟨['r'], rfl, fun _ => rfl⟩
  split
  · subst c; exact .inr ⟨['t'], rfl, fun _ => rfl⟩
  split
  · exact .inr ⟨['b'], rfl, fun r => by rw [← hShort 8 ‹_›]; rfl⟩
  split
  · exact .inr ⟨['f'], rfl, fun r => by rw [← hShort 12 ‹_›]; rfl⟩
  split
  · rename_i hControl
    exact .inr ⟨_, rfl, fun r => escape?_control hControl⟩
  · exact .inl ⟨rfl, ‹_›, ‹_›, ‹_›⟩

theorem stringBody?_escapeChar (done : List Char) (c : Char) (r : List Char) :
    stringBody? (fuel + 1) done (escapeChar c ++ r) = stringBody? fuel (c :: done) r := by
  obtain ⟨hPlain, hQuote, hSlash, hControl⟩ | ⟨form, hForm, hRead⟩ := escapeChar_spec c
  · rw [hPlain, List.singleton_append, stringBody?, if_neg hControl]
    · exact hQuote
    · exact hSlash
  · rw [hForm, List.cons_append, stringBody?, hRead]
    rfl

theorem stringBody?_flatMap (cs done r : List Char) (h : cs.length < fuel) :
    stringBody? fuel done (cs.flatMap escapeChar ++ '"' :: r) =
      some (String.ofList (done.reverse ++ cs), r) := by
  induction cs generalizing fuel done with
  | nil =>
    obtain ⟨fuel, rfl⟩ := Nat.exists_eq_succ_of_ne_zero (Nat.ne_of_gt h)
    simp [stringBody?]
  | cons c cs ih =>
    obtain ⟨fuel, rfl⟩ := Nat.exists_eq_succ_of_ne_zero (Nat.ne_zero_of_lt h)
    rw [List.flatMap_cons, List.append_assoc, stringBody?_escapeChar,
      ih _ (Nat.lt_of_succ_lt_succ h)]
    simp

theorem length_le_flatMap_escapeChar (cs : List Char) :
    cs.length ≤ (cs.flatMap escapeChar).length := by
  induction cs with
  | nil => exact Nat.le_refl 0
  | cons c cs ih =>
    have hHead : 0 < (escapeChar c).length := by
      obtain ⟨hPlain, _⟩ | ⟨form, hForm, _⟩ := escapeChar_spec c
      · simp [hPlain]
      · simp [hForm]
    rw [List.flatMap_cons, List.length_append, List.length_cons]
    omega

theorem toList_quote (s : String) :
    (quote s).toList = '"' :: (s.toList.flatMap escapeChar ++ ['"']) := by
  simp [quote]

/-- A quoted text is read back, whatever follows it. -/
theorem stringBody?_quote {text : List Char} (h : text = s.flatMap escapeChar ++ '"' :: r) :
    stringBody? (text.length + 1) [] text = some (String.ofList s, r) := by
  subst h
  have hLength := length_le_flatMap_escapeChar s
  rw [stringBody?_flatMap _ _ _ (by simp only [List.length_append]; omega)]
  rfl

/-! ## Layout -/

theorem skipBlanks_line (n : Nat) (s : List Char) :
    skipBlanks ('\n' :: (indent n).toList ++ s) = skipBlanks s := by
  have hIndent : skipBlanks ((indent n).toList ++ s) = skipBlanks s := by
    rw [indent, String.toList_ofList]
    induction 2 * n with
    | zero => rfl
    | succ n ih => rw [List.replicate_succ, List.cons_append, ← ih]; rfl
  rw [← hIndent]
  rfl

def blockRest (depth : Nat) (closing : Char) : List String → List Char
  | [] => '\n' :: (indent depth).toList ++ [closing]
  | line :: lines =>
    ',' :: '\n' :: (indent (depth + 1)).toList ++ (line.toList ++ blockRest depth closing lines)

theorem toList_lines (depth : Nat) (closing : Char) (line : String) (lines : List String) :
    (",\n".intercalate ((line :: lines).map (indent (depth + 1) ++ ·))).toList ++
        ('\n' :: (indent depth).toList ++ [closing]) =
      (indent (depth + 1)).toList ++ (line.toList ++ blockRest depth closing lines) := by
  induction lines generalizing line with
  | nil => simp [blockRest, String.intercalate_singleton]
  | cons next lines ih =>
    have hRest := ih next
    rw [List.map_cons] at hRest
    rw [List.map_cons, List.map_cons, String.intercalate_cons_cons, String.toList_append,
      List.append_assoc, hRest]
    simp [blockRest]

theorem toList_block (depth : Nat) (opening closing : Char) (line : String) (lines : List String) :
    (block depth (String.singleton opening) (String.singleton closing) (line :: lines)).toList =
      opening :: '\n' :: ((indent (depth + 1)).toList ++
        (line.toList ++ blockRest depth closing lines)) := by
  rw [← toList_lines]
  simp [block]

/-! ## Documents -/

inductive NumberFree : Json → Prop
  | null : NumberFree .null
  | bool (b : Bool) : NumberFree (.bool b)
  | str (s : String) : NumberFree (.str s)
  | arr {items : List Json} (h : ∀ v ∈ items, NumberFree v) : NumberFree (.arr items)
  | obj {entries : List (String × Json)} (h : ∀ e ∈ entries, NumberFree e.2) :
    NumberFree (.obj entries)

@[simp] theorem numberFree_bool (b : Bool) : NumberFree (.bool b) := .bool b

@[simp] theorem numberFree_str (s : String) : NumberFree (.str s) := .str s

@[simp] theorem numberFree_arr {items : List Json} :
    NumberFree (.arr items) ↔ ∀ v ∈ items, NumberFree v :=
  ⟨fun | .arr h => h, .arr⟩

@[simp] theorem numberFree_obj {entries : List (String × Json)} :
    NumberFree (.obj entries) ↔ ∀ e ∈ entries, NumberFree e.2 :=
  ⟨fun | .obj h => h, .obj⟩

variable {v : Json}

def openers : List Char := ['n', 't', 'f', '"', '[', '\x7b']

/-- The reader takes the text of a value for the value, whatever follows it.  A container is longer
than what is in it, so that the length of the text is fuel and depth enough. -/
structure IsRead (v : Json) : Prop where
  head : ∀ d, ∃ c ∈ openers, ∃ cs, (prettyAt d v).toList = c :: cs
  value : ∀ {d fuel depth : Nat} {s r : List Char}, skipBlanks s = (prettyAt d v).toList ++ r →
    (prettyAt d v).toList.length ≤ fuel → (prettyAt d v).toList.length ≤ depth →
    value? fuel depth s = some (v, r)

theorem skipBlanks_opener {c : Char} (h : c ∈ openers) (s : List Char) :
    skipBlanks (c :: s) = c :: s := by
  have hBlanks : openers.all (fun c => !(c == ' ' || c == '\n' || c == '\t' || c == '\r')) =
    true := by decide
  have hBlank := List.all_eq_true.mp hBlanks c h
  rw [skipBlanks, List.dropWhile_cons_of_neg]
  simpa using hBlank

theorem IsRead.starts (h : v.IsRead) (d : Nat) (r : List Char) :
    skipBlanks ((prettyAt d v).toList ++ r) = (prettyAt d v).toList ++ r := by
  obtain ⟨c, hOpener, cs, hText⟩ := h.head d
  rw [hText, List.cons_append, skipBlanks_opener hOpener]

/-- As the text of a value is not empty, there is fuel to read it. -/
theorem isRead_of_head (hHead : ∀ d, ∃ c ∈ openers, ∃ cs, (prettyAt d v).toList = c :: cs)
    (hValue : ∀ {d fuel depth : Nat} {s r : List Char}, skipBlanks s = (prettyAt d v).toList ++ r →
      (prettyAt d v).toList.length ≤ fuel + 1 → (prettyAt d v).toList.length ≤ depth →
      value? (fuel + 1) depth s = some (v, r)) : v.IsRead := by
  refine ⟨hHead, fun {d fuel depth s r} hText hFuel hDepth => ?_⟩
  obtain ⟨c, _, cs, hStart⟩ := hHead d
  cases fuel with
  | zero => simp [hStart] at hFuel
  | succ fuel => exact hValue hText hFuel hDepth

theorem skipBlanks_blockRest_nil (d : Nat) (c : Char) (r : List Char) :
    skipBlanks (blockRest d c [] ++ r) = skipBlanks (c :: r) := by
  rw [blockRest, List.append_assoc, skipBlanks_line]
  rfl

theorem length_blockRest_nil (d : Nat) (c : Char) : 0 < (blockRest d c []).length := by
  simp [blockRest]

theorem length_blockRest_cons (d : Nat) (c : Char) (line : String) (lines : List String) :
    line.toList.length + (blockRest d c lines).length < (blockRest d c (line :: lines)).length := by
  simp only [blockRest, List.length_append, List.length_cons]
  omega

theorem skipBlanks_blockRest_cons {d : Nat} {c : Char} {line : String} {lines : List String}
    (r : List Char) : ∃ more, skipBlanks (blockRest d c (line :: lines) ++ r) = ',' :: more ∧
      skipBlanks more = skipBlanks (line.toList ++ (blockRest d c lines ++ r)) := by
  refine ⟨'\n' :: (indent (d + 1)).toList ++ (line.toList ++ (blockRest d c lines ++ r)), ?_,
    skipBlanks_line _ _⟩
  rw [blockRest]
  simp [skipBlanks]

theorem items?_block {d : Nat} {items done : List Json} (hItems : ∀ w ∈ v :: items, w.IsRead)
    (hText : skipBlanks s = (prettyAt (d + 1) v).toList ++
      (blockRest d ']' (prettyItems (d + 1) items) ++ r))
    (hFuel : (prettyAt (d + 1) v).toList.length +
      (blockRest d ']' (prettyItems (d + 1) items)).length ≤ fuel)
    (hDepth : (prettyAt (d + 1) v).toList.length +
      (blockRest d ']' (prettyItems (d + 1) items)).length ≤ depth) :
    items? fuel depth done s = some (.arr (done.reverse ++ v :: items), r) := by
  -- Each item costs one unit of fuel, which the comma or the bracket behind it pays for.
  induction items generalizing v done s fuel with
  | nil =>
    have hRest := length_blockRest_nil d ']'
    rw [prettyItems] at hText hFuel hDepth
    obtain ⟨fuel, rfl⟩ : ∃ n, fuel = n + 1 := ⟨fuel - 1, by omega⟩
    have hValue : value? fuel depth s = some (v, blockRest d ']' [] ++ r) :=
      (hItems v List.mem_cons_self).value hText (by omega) (by omega)
    have hEnd : skipBlanks (blockRest d ']' [] ++ r) = ']' :: r := skipBlanks_blockRest_nil d ']' r
    simp [items?, hValue, hEnd]
  | cons w items ih =>
    have hRest := length_blockRest_cons d ']' (prettyAt (d + 1) w) (prettyItems (d + 1) items)
    rw [prettyItems] at hText hFuel hDepth
    obtain ⟨fuel, rfl⟩ : ∃ n, fuel = n + 1 := ⟨fuel - 1, by omega⟩
    have hValue : value? fuel depth s = some (v, _) :=
      (hItems v List.mem_cons_self).value hText (by omega) (by omega)
    obtain ⟨more, hComma, hMore⟩ := skipBlanks_blockRest_cons r
    have hNext : skipBlanks more = (prettyAt (d + 1) w).toList ++
        (blockRest d ']' (prettyItems (d + 1) items) ++ r) :=
      hMore.trans ((hItems w (by simp)).starts _ _)
    rw [items?, hValue]
    simp only [Option.bind_eq_bind, Option.bind_some, hComma]
    rw [ih (fun u hu => hItems u (List.mem_cons_of_mem v hu)) hNext (by omega) (by omega)]
    simp

def entryText (d : Nat) (e : String × Json) : String := quote e.1 ++ ": " ++ prettyAt d e.2

theorem toList_entryText (d : Nat) (e : String × Json) (r : List Char) :
    (entryText d e).toList ++ r =
      '"' :: (e.1.toList.flatMap escapeChar ++
        '"' :: ':' :: ' ' :: ((prettyAt d e.2).toList ++ r)) := by
  simp [entryText, toList_quote]

theorem length_entryText (d : Nat) (e : String × Json) :
    (prettyAt d e.2).toList.length ≤ (entryText d e).toList.length := by
  simp only [entryText, String.toList_append, List.length_append]
  omega

theorem entries?_entryText {d : Nat} {e : String × Json} {done : List (String × Json)}
    (h : e.2.IsRead) (hText : skipBlanks s = (entryText d e).toList ++ r)
    (hFuel : (entryText d e).toList.length ≤ fuel)
    (hDepth : (entryText d e).toList.length ≤ depth) :
    (∀ more, skipBlanks r = ',' :: more →
      entries? (fuel + 1) depth done s = entries? fuel depth (e :: done) more) ∧
    ∀ more, skipBlanks r = '\x7d' :: more →
      entries? (fuel + 1) depth done s = some (.obj (e :: done).reverse, more) := by
  have hLength := length_entryText d e
  have hColon : ∀ r, skipBlanks (':' :: r) = ':' :: r := fun _ => rfl
  have hValue : value? fuel depth (' ' :: ((prettyAt d e.2).toList ++ r)) = some (e.2, r) :=
    h.value (h.starts d r) (by omega) (by omega)
  rw [toList_entryText] at hText
  constructor
  all_goals
    intro more hMore
    rw [entries?, hText]
    simp only
    rw [stringBody?_quote rfl]
    simp [hColon, hValue, hMore]

theorem entries?_block {d : Nat} {e : String × Json} {entries done : List (String × Json)}
    (hEntries : ∀ f ∈ e :: entries, f.2.IsRead)
    (hText : skipBlanks s = (entryText (d + 1) e).toList ++
      (blockRest d '\x7d' (prettyEntries (d + 1) entries) ++ r))
    (hFuel : (entryText (d + 1) e).toList.length +
      (blockRest d '\x7d' (prettyEntries (d + 1) entries)).length ≤ fuel)
    (hDepth : (entryText (d + 1) e).toList.length +
      (blockRest d '\x7d' (prettyEntries (d + 1) entries)).length ≤ depth) :
    entries? fuel depth done s = some (.obj (done.reverse ++ e :: entries), r) := by
  induction entries generalizing e done s fuel with
  | nil =>
    have hRest := length_blockRest_nil d '\x7d'
    rw [prettyEntries] at hText hFuel hDepth
    obtain ⟨fuel, rfl⟩ : ∃ n, fuel = n + 1 := ⟨fuel - 1, by omega⟩
    have hEnd : skipBlanks (blockRest d '\x7d' [] ++ r) = '\x7d' :: r :=
      skipBlanks_blockRest_nil d '\x7d' r
    rw [(entries?_entryText (hEntries e List.mem_cons_self) hText (by omega) (by omega)).2 r hEnd]
    simp
  | cons f entries ih =>
    have hRest := length_blockRest_cons d '\x7d' (entryText (d + 1) f)
      (prettyEntries (d + 1) entries)
    have hLine : prettyEntries (d + 1) (f :: entries) =
      entryText (d + 1) f :: prettyEntries (d + 1) entries := by rw [prettyEntries.eq_def]; rfl
    rw [hLine] at hText hFuel hDepth
    obtain ⟨fuel, rfl⟩ : ∃ n, fuel = n + 1 := ⟨fuel - 1, by omega⟩
    obtain ⟨more, hComma, hMore⟩ := skipBlanks_blockRest_cons r
    have hNext : skipBlanks more = (entryText (d + 1) f).toList ++
        (blockRest d '\x7d' (prettyEntries (d + 1) entries) ++ r) := by
      rw [hMore, toList_entryText]
      rfl
    rw [(entries?_entryText (hEntries e List.mem_cons_self) hText (by omega) (by omega)).1
        more hComma,
      ih (fun g hg => hEntries g (List.mem_cons_of_mem e hg)) hNext (by omega) (by omega)]
    simp

theorem toList_arr (d : Nat) (v : Json) (items : List Json) :
    (prettyAt d (.arr (v :: items))).toList = '[' :: '\n' :: ((indent (d + 1)).toList ++
      ((prettyAt (d + 1) v).toList ++ blockRest d ']' (prettyItems (d + 1) items))) :=
  toList_block d '[' ']' _ _

theorem toList_obj (d : Nat) (e : String × Json) (entries : List (String × Json)) :
    (prettyAt d (.obj (e :: entries))).toList = '\x7b' :: '\n' :: ((indent (d + 1)).toList ++
      ((entryText (d + 1) e).toList ++ blockRest d '\x7d' (prettyEntries (d + 1) entries))) :=
  toList_block d '\x7b' '\x7d' _ _

theorem isRead_null : IsRead .null := by
  refine isRead_of_head (fun d => ⟨'n', by decide, ['u', 'l', 'l'], by simp [prettyAt]⟩) ?_
  intro d fuel depth s r hText _ _
  rw [value?, hText]
  simp [prettyAt]

theorem isRead_bool (b : Bool) : IsRead (.bool b) := by
  cases b
  · refine isRead_of_head (fun d => ⟨'f', by decide, ['a', 'l', 's', 'e'], by simp [prettyAt]⟩) ?_
    intro d fuel depth s r hText _ _
    rw [value?, hText]
    simp [prettyAt]
  · refine isRead_of_head (fun d => ⟨'t', by decide, ['r', 'u', 'e'], by simp [prettyAt]⟩) ?_
    intro d fuel depth s r hText _ _
    rw [value?, hText]
    simp [prettyAt]

theorem isRead_str (t : String) : IsRead (.str t) := by
  refine isRead_of_head (fun d => ⟨'"', by decide, _, toList_quote t⟩) ?_
  intro d fuel depth s r hText _ _
  rw [prettyAt, toList_quote] at hText
  rw [value?, hText]
  simp only [List.cons_append, List.append_assoc, List.nil_append]
  rw [stringBody?_quote rfl]
  simp

theorem value?_items {c : Char} (hText : skipBlanks s = '[' :: r) (hFirst : skipBlanks r = c :: cs)
    (hOpener : c ∈ openers) : value? (fuel + 1) (depth + 1) s = items? fuel depth [] r := by
  rw [value?, hText]
  simp only [hFirst]
  split
  · rename_i hClosed
    injection hClosed with hClosed
    exact absurd (hClosed ▸ hOpener) (by decide)
  · rfl

theorem value?_entries (hText : skipBlanks s = '\x7b' :: r) (hFirst : skipBlanks r = '"' :: cs) :
    value? (fuel + 1) (depth + 1) s = entries? fuel depth [] r := by
  rw [value?, hText]
  simp only [hFirst]
  split
  · rename_i hClosed
    injection hClosed with hClosed
    exact absurd hClosed (by decide)
  · rfl

theorem isRead_arr {items : List Json} (hItems : ∀ v ∈ items, v.IsRead) : IsRead (.arr items) := by
  cases items with
  | nil =>
    have hEmpty (d : Nat) : (prettyAt d (.arr [])).toList = ['[', ']'] := by
      simp [prettyAt, prettyItems, block]
    refine isRead_of_head (fun d => ⟨'[', by decide, _, hEmpty d⟩) ?_
    intro d fuel depth s r hText _ hDepth
    rw [hEmpty] at hText hDepth
    cases depth with
    | zero => simp at hDepth
    | succ depth =>
      rw [value?, hText]
      simp [skipBlanks]
  | cons v items =>
    refine isRead_of_head (fun d => ⟨'[', by decide, _, toList_arr d v items⟩) ?_
    intro d fuel depth s r hText hFuel hDepth
    rw [toList_arr] at hText hFuel hDepth
    simp only [List.length_append, List.length_cons] at hFuel hDepth
    obtain ⟨depth, rfl⟩ : ∃ n, depth = n + 1 := ⟨depth - 1, by omega⟩
    have hFirst := hItems v List.mem_cons_self
    obtain ⟨c, hOpener, cs, hStart⟩ := hFirst.head (d + 1)
    have hLine : skipBlanks ('\n' :: (indent (d + 1)).toList ++ ((prettyAt (d + 1) v).toList ++
        (blockRest d ']' (prettyItems (d + 1) items) ++ r))) = (prettyAt (d + 1) v).toList ++
        (blockRest d ']' (prettyItems (d + 1) items) ++ r) := by
      rw [skipBlanks_line, hFirst.starts]
    rw [value?_items (by rw [hText]; simp) (hLine.trans (by rw [hStart]; rfl)) hOpener,
      items?_block hItems hLine (by omega) (by omega)]
    rfl

theorem isRead_obj {entries : List (String × Json)} (hEntries : ∀ e ∈ entries, e.2.IsRead) :
    IsRead (.obj entries) := by
  cases entries with
  | nil =>
    have hEmpty (d : Nat) : (prettyAt d (.obj [])).toList = ['\x7b', '\x7d'] := by
      simp [prettyAt, prettyEntries, block]
    refine isRead_of_head (fun d => ⟨'\x7b', by decide, _, hEmpty d⟩) ?_
    intro d fuel depth s r hText _ hDepth
    rw [hEmpty] at hText hDepth
    cases depth with
    | zero => simp at hDepth
    | succ depth =>
      rw [value?, hText]
      simp [skipBlanks]
  | cons e entries =>
    refine isRead_of_head (fun d => ⟨'\x7b', by decide, _, toList_obj d e entries⟩) ?_
    intro d fuel depth s r hText hFuel hDepth
    rw [toList_obj] at hText hFuel hDepth
    simp only [List.length_append, List.length_cons] at hFuel hDepth
    obtain ⟨depth, rfl⟩ : ∃ n, depth = n + 1 := ⟨depth - 1, by omega⟩
    have hLine : skipBlanks ('\n' :: (indent (d + 1)).toList ++ ((entryText (d + 1) e).toList ++
        (blockRest d '\x7d' (prettyEntries (d + 1) entries) ++ r))) =
        (entryText (d + 1) e).toList ++
          (blockRest d '\x7d' (prettyEntries (d + 1) entries) ++ r) := by
      rw [skipBlanks_line, toList_entryText]
      rfl
    rw [value?_entries (by rw [hText]; simp) (hLine.trans (toList_entryText _ _ _)),
      entries?_block hEntries hLine (by omega) (by omega)]
    rfl

/-- The reader takes what the writer makes of a document without numbers for that document. -/
theorem NumberFree.isRead (h : v.NumberFree) : v.IsRead := by
  induction h with
  | null => exact isRead_null
  | bool b => exact isRead_bool b
  | str s => exact isRead_str s
  | arr _ ih => exact isRead_arr ih
  | obj _ ih => exact isRead_obj ih

/-- Reads a text that holds one value and nothing else, however deep the value is. -/
def ofDeepText? (text : String) : Option Json :=
  let s := text.toList
  match value? s.length s.length s with
  | some (v, rest) => if (skipBlanks rest).isEmpty then some v else none
  | none => none

theorem ofDeepText?_pretty (h : v.NumberFree) : ofDeepText? v.pretty = some v := by
  have hText : skipBlanks (prettyAt 0 v).toList = (prettyAt 0 v).toList ++ [] := by
    have hStarts := h.isRead.starts 0 []
    rwa [List.append_nil] at hStarts ⊢
  have hRead := h.isRead.value hText (Nat.le_refl _) (Nat.le_refl _)
  rw [pretty, ofDeepText?, hRead]
  rfl

end TraitClient.Json
