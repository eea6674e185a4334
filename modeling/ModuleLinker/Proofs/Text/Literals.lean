import ModuleLinker.Text.Quoted

/-!
# Reading string literals

The language has a rule of its own for what a string literal stands for.  Behind a backslash
there is a letter, a number in hexadecimal digits, the end of a line that goes on below, or a
character that stands for itself.  Generated code needs few of these escapes.  Whatever is
spelled out with them is read up to its closing mark, whatever comes after it, and nothing in
it is invisible.  So the value of every literal in generated code is the text that was quoted.
Texts are lists of code points here, so an escape for half of a surrogate pair is refused.
-/

namespace ModuleLinker

namespace Quoted

/-! ## The rule of the language -/

/-- Whether a character ends a line. -/
def isLineEnd (c : Char) : Bool := c == '\n' || c == '\r' || isLineSeparator c

/-- The value of a hexadecimal digit. -/
def hexValue? (c : Char) : Option Nat :=
  if c.isDigit then some (c.toNat - '0'.toNat)
  else if 'a' ≤ c ∧ c ≤ 'f' then some (c.toNat - 'a'.toNat + 10)
  else if 'A' ≤ c ∧ c ≤ 'F' then some (c.toNat - 'A'.toNat + 10)
  else none

/-- The number that hexadecimal digits write, the most significant first. -/
def hexNumber? (digits : List Char) : Option Nat :=
  digits.foldlM (fun value c => (hexValue? c).map fun digit => 16 * value + digit) 0

/-- The character whose code point hexadecimal digits write. -/
def codePoint? (digits : List Char) : Option Char :=
  (hexNumber? digits).bind fun n => if n.isValidChar then some (Char.ofNat n) else none

/-- An escape by a fixed number of digits. -/
def fixedEscape? (count : Nat) (cs : List Char) : Option (List Char × List Char) :=
  if cs.length < count then none
  else (codePoint? (cs.take count)).map fun c => ([c], cs.drop count)

/-- An escape by digits up to a closing brace. -/
def bracedEscape? (cs : List Char) : Option (List Char × List Char) :=
  match cs.takeWhile (· != '\x7d'), cs.dropWhile (· != '\x7d') with
  | d :: digits, _ :: rest => (codePoint? (d :: digits)).map fun c => ([c], rest)
  | _, _ => none

/-- The character that a letter stands for behind a backslash.  Most characters stand for
themselves. -/
def letterEscape (c : Char) : Char :=
  match c with
  | 'b' => '\x08'
  | 't' => '\t'
  | 'n' => '\n'
  | 'v' => '\x0b'
  | 'f' => '\x0c'
  | 'r' => '\r'
  | _ => c

/-- What a backslash and the characters behind it stand for, and the rest.  The end of a line
stands for nothing.  The digit zero stands for the first code point unless another digit
follows, and no other digit is an escape. -/
def readEscape? : List Char → Option (List Char × List Char)
  | [] => none
  | 'u' :: '\x7b' :: rest => bracedEscape? rest
  | 'u' :: rest => fixedEscape? 4 rest
  | 'x' :: rest => fixedEscape? 2 rest
  | '0' :: rest => if rest.head?.any Char.isDigit then none else some (['\x00'], rest)
  | '\r' :: '\n' :: rest => some ([], rest)
  | c :: rest =>
    if isLineEnd c then some ([], rest)
    else if c.isDigit then none
    else some ([letterEscape c], rest)

theorem length_lt_of_fixedEscape? {count : Nat} {cs value rest : List Char} (hcount : 0 < count)
    (h : fixedEscape? count cs = some (value, rest)) : rest.length < cs.length := by
  rw [fixedEscape?] at h
  split at h
  · exact absurd h (by simp)
  · rename_i hlength
    obtain ⟨c, -, hresult⟩ := Option.map_eq_some_iff.mp h
    obtain ⟨-, rfl⟩ := Prod.mk.inj hresult
    rw [List.length_drop]
    omega

theorem length_lt_of_bracedEscape? {cs value rest : List Char}
    (h : bracedEscape? cs = some (value, rest)) : rest.length < cs.length := by
  rw [bracedEscape?] at h
  split at h
  · rename_i brace tail hdigits htail
    obtain ⟨c, -, hresult⟩ := Option.map_eq_some_iff.mp h
    obtain ⟨-, rfl⟩ := Prod.mk.inj hresult
    have hsuffix := (List.dropWhile_suffix (· != '\x7d') (l := cs)).length_le
    rw [htail, List.length_cons] at hsuffix
    omega
  · exact absurd h (by simp)

/-- An escape has at least one character. -/
theorem length_lt_of_readEscape? {cs value rest : List Char}
    (h : readEscape? cs = some (value, rest)) : rest.length < cs.length := by
  revert h
  fun_cases readEscape? cs with
  | case1 => exact fun h => absurd h (by simp)
  | case2 cs =>
    intro h
    have hlt := length_lt_of_bracedEscape? h
    simp only [List.length_cons]
    omega
  | case3 cs =>
    intro h
    have hlt := length_lt_of_fixedEscape? (by decide) h
    simp only [List.length_cons]
    omega
  | case4 cs =>
    intro h
    have hlt := length_lt_of_fixedEscape? (by decide) h
    simp only [List.length_cons]
    omega
  | case5 => exact fun h => absurd h (by simp)
  | case6 => simp +contextual
  | case7 =>
    intro h
    obtain ⟨-, rfl⟩ := Prod.mk.inj (Option.some.inj h)
    simp only [List.length_cons]
    omega
  | case8 => simp +contextual
  | case9 => exact fun h => absurd h (by simp)
  | case10 => simp +contextual

/-- Read the characters of a literal up to its closing mark, and the rest. -/
def readBody? (quote : Char) : List Char → Option (List Char × List Char)
  | [] => none
  | c :: cs =>
    if c = quote then some ([], cs)
    else if c = '\\' then
      match h : readEscape? cs with
      | none => none
      | some (value, rest) =>
        have := length_lt_of_readEscape? h
        (readBody? quote rest).map (Prod.map (value ++ ·) id)
    else if c = '\n' ∨ c = '\r' then none
    else (readBody? quote cs).map (Prod.map (c :: ·) id)
termination_by cs => cs.length
decreasing_by
  · rw [List.length_cons]
    omega
  · exact Nat.lt_succ_self _

/-- Read a string literal, and the rest. -/
def readLiteral? : List Char → Option (String × List Char)
  | [] => none
  | c :: cs =>
    if c = '"' ∨ c = '\'' then (readBody? c cs).map (Prod.map String.ofList id) else none

/-- What is read in front of a result has made the rest shorter. -/
theorem length_lt_of_map {α β : Type} {f : α → β} {read : Option (α × List Char)}
    {value : β} {cs rest : List Char} (h : read.map (Prod.map f id) = some (value, rest))
    (hread : ∀ content, read = some (content, rest) → rest.length < cs.length) :
    rest.length < cs.length := by
  obtain ⟨⟨content, others⟩, hsome, hresult⟩ := Option.map_eq_some_iff.mp h
  obtain ⟨-, rfl⟩ := Prod.mk.inj hresult
  exact hread content hsome

theorem length_lt_of_readBody? {quote : Char} {cs value rest : List Char}
    (h : readBody? quote cs = some (value, rest)) : rest.length < cs.length := by
  fun_induction readBody? quote cs generalizing value with
  | case1 => exact absurd h (by simp)
  | case2 cs =>
    obtain ⟨-, rfl⟩ := Prod.mk.inj (Option.some.inj h)
    exact Nat.lt_succ_self _
  | case3 => exact absurd h (by simp)
  | case4 cs _ after _ hlt _ ih =>
    have hrest := length_lt_of_map h fun _ => ih
    rw [List.length_cons]
    omega
  | case5 => exact absurd h (by simp)
  | case6 c cs _ _ _ ih => exact Nat.lt_succ_of_lt (length_lt_of_map h fun _ => ih)

theorem length_lt_of_readLiteral? {cs rest : List Char} {text : String}
    (h : readLiteral? cs = some (text, rest)) : rest.length < cs.length := by
  cases cs with
  | nil => exact absurd h (by simp [readLiteral?])
  | cons c cs =>
    rw [readLiteral?] at h
    split at h
    · exact Nat.lt_succ_of_lt (length_lt_of_map h fun _ => length_lt_of_readBody?)
    · exact absurd h (by simp)

/-! ## Ways to write a character -/

/-- An escape in a literal stands for what it is read as. -/
theorem readBody?_backslash {cs value rest : List Char}
    (h : readEscape? cs = some (value, rest)) :
    readBody? '"' ('\\' :: cs) = (readBody? '"' rest).map (Prod.map (value ++ ·) id) := by
  rw [readBody?, if_neg (by decide), if_pos rfl]
  split
  · rename_i hnone
    exact absurd (hnone.symm.trans h) (by simp)
  · rename_i hsome
    obtain ⟨rfl, rfl⟩ := Prod.mk.inj (Option.some.inj (hsome.symm.trans h))
    rfl

/-- The characters that are written by a single one behind a backslash, each behind the one
that stands for it. -/
def shortEscapes : List (Char × Char) :=
  [('\\', '\\'), ('"', '"'), ('n', '\n'), ('r', '\r'), ('t', '\t')]

/-- The ways in which a character is written in generated literals: as itself if it can be
seen and is neither a quote mark nor a backslash, by a short escape, or by the four digits of
its code point. -/
inductive WrittenAs (c : Char) : List Char → Prop
  | plain (hquote : c ≠ '"') (hslash : c ≠ '\\')
      (hshown : (isControl c || isLineSeparator c) = false) : WrittenAs c [c]
  | short {letter : Char} (h : (letter, c) ∈ shortEscapes) : WrittenAs c ['\\', letter]
  | numbered {digits : List Char} (hlength : digits.length = 4)
      (h : codePoint? digits = some c) : WrittenAs c ('\\' :: 'u' :: digits)

theorem isLineEnd_of_isShown {c : Char} (h : (isControl c || isLineSeparator c) = false) :
    isLineEnd c = false := by
  obtain ⟨hcontrol, hseparator⟩ := Bool.or_eq_false_iff.mp h
  have hfeed : c ≠ '\n' := by
    rintro rfl
    exact absurd hcontrol (by decide)
  have hreturn : c ≠ '\r' := by
    rintro rfl
    exact absurd hcontrol (by decide)
  rw [isLineEnd, beq_false_of_ne hfeed, beq_false_of_ne hreturn, hseparator]
  rfl

theorem hexValue?_ne_none_of_foldlM {digits : List Char} {d : Char} {start n : Nat}
    (h : digits.foldlM (fun value c => (hexValue? c).map fun digit => 16 * value + digit) start =
      some n) (hd : d ∈ digits) : hexValue? d ≠ none := by
  induction digits generalizing start with
  | nil => exact absurd hd List.not_mem_nil
  | cons first rest ih =>
    rw [List.foldlM_cons] at h
    cases hvalue : hexValue? first with
    | none => simp [hvalue] at h
    | some value =>
      rw [hvalue] at h
      rcases List.mem_cons.mp hd with rfl | hd
      · rw [hvalue]
        exact Option.some_ne_none value
      · exact ih h hd

/-- Digits that write a code point are hexadecimal digits. -/
theorem hexValue?_ne_none_of_mem {digits : List Char} {c d : Char}
    (h : codePoint? digits = some c) (hd : d ∈ digits) : hexValue? d ≠ none := by
  obtain ⟨n, hnumber, -⟩ := Option.bind_eq_some_iff.mp h
  exact hexValue?_ne_none_of_foldlM hnumber hd

/-- Hexadecimal digits are ASCII digits and letters. -/
theorem toNat_of_hexValue? {d : Char} (h : hexValue? d ≠ none) :
    48 ≤ d.toNat ∧ d.toNat ≤ 57 ∨ 97 ≤ d.toNat ∧ d.toNat ≤ 102 ∨ 65 ≤ d.toNat ∧ d.toNat ≤ 70 := by
  rw [hexValue?] at h
  split at h
  · rename_i hdigit
    simp only [Char.isDigit, Bool.and_eq_true, decide_eq_true_eq, ge_iff_le,
      UInt32.le_iff_toNat_le] at hdigit
    exact Or.inl hdigit
  split at h
  · rename_i hlower
    exact Or.inr (Or.inl hlower)
  split at h
  · rename_i hupper
    exact Or.inr (Or.inr hupper)
  · exact absurd rfl h

/-- Four digits behind the letter are read as their code point. -/
theorem readEscape?_numbered {digits : List Char} {c : Char} (hlength : digits.length = 4)
    (h : codePoint? digits = some c) (rest : List Char) :
    readEscape? ('u' :: (digits ++ rest)) = some ([c], rest) := by
  have hread : readEscape? ('u' :: (digits ++ rest)) = fixedEscape? 4 (digits ++ rest) := by
    cases digits with
    | nil => exact absurd hlength (by decide)
    | cons first others =>
      have hfirst : first ≠ '\x7b' := by
        rintro rfl
        exact hexValue?_ne_none_of_mem h List.mem_cons_self (by decide)
      rw [List.cons_append, readEscape?]
      exact fun _ heq => hfirst (List.cons.inj heq).1
  have hfour : ¬ (digits ++ rest).length < 4 := by
    rw [List.length_append]
    omega
  rw [hread, fixedEscape?, if_neg hfour, List.take_left' hlength, List.drop_left' hlength, h]
  rfl

namespace WrittenAs

variable {c d : Char} {writing : List Char}

/-- A character is read as it is written, whatever comes after it. -/
theorem readBody? (h : WrittenAs c writing) (rest : List Char) :
    Quoted.readBody? '"' (writing ++ rest) =
      (Quoted.readBody? '"' rest).map (Prod.map (c :: ·) id) := by
  cases h with
  | plain hquote hslash hshown =>
    have hend : ¬ (c = '\n' ∨ c = '\r') := by
      rintro (rfl | rfl) <;> exact absurd (isLineEnd_of_isShown hshown) (by decide)
    rw [List.singleton_append, Quoted.readBody?, if_neg hquote, if_neg hslash, if_neg hend]
  | @short letter h =>
    have hread : readEscape? (letter :: rest) = some ([c], rest) := by
      simp only [shortEscapes, List.mem_cons, Prod.mk.injEq, List.not_mem_nil, or_false] at h
      rcases h with ⟨rfl, rfl⟩ | ⟨rfl, rfl⟩ | ⟨rfl, rfl⟩ | ⟨rfl, rfl⟩ | ⟨rfl, rfl⟩ <;> rfl
    exact readBody?_backslash hread
  | numbered hlength h => exact readBody?_backslash (readEscape?_numbered hlength h rest)

/-- No writing has a control character or a line separator in it. -/
theorem isShown_of_mem (h : WrittenAs c writing) (hd : d ∈ writing) :
    (isControl d || isLineSeparator d) = false := by
  have hmark : ∀ e ∈ ['\\', 'u'], (isControl e || isLineSeparator e) = false := by
    simp [isControl, isLineSeparator]
  have hletter : ∀ escape ∈ shortEscapes,
      (isControl escape.1 || isLineSeparator escape.1) = false := by decide
  cases h with
  | plain _ _ hshown => rwa [List.mem_singleton.mp hd]
  | short h =>
    rcases List.mem_cons.mp hd with rfl | hd
    · exact hmark '\\' (by decide)
    · rw [List.mem_singleton.mp hd]
      exact hletter _ h
  | @numbered digits _ h =>
    have hsplit : d ∈ ['\\', 'u'] ++ digits := hd
    rcases List.mem_append.mp hsplit with hfront | hdigit
    · exact hmark d hfront
    · have hrange := toNat_of_hexValue? (hexValue?_ne_none_of_mem h hdigit)
      simp only [isControl, isLineSeparator, Bool.or_eq_false_iff, Bool.and_eq_false_imp,
        decide_eq_true_eq, decide_eq_false_iff_not, beq_eq_false_iff_ne]
      omega

end WrittenAs

/-- The second list writes the characters of the first one after the other. -/
inductive SpelledOut : List Char → List Char → Prop
  | nil : SpelledOut [] []
  | cons {c : Char} {value writing body : List Char} (hfirst : WrittenAs c writing)
      (hrest : SpelledOut value body) : SpelledOut (c :: value) (writing ++ body)

namespace SpelledOut

variable {value body : List Char}

/-- What is spelled out is read up to the closing mark, whatever comes after it. -/
theorem readBody? (h : SpelledOut value body) (rest : List Char) :
    Quoted.readBody? '"' (body ++ '"' :: rest) = some (value, rest) := by
  induction h with
  | nil => rw [List.nil_append, Quoted.readBody?, if_pos rfl]
  | cons hfirst _ ih =>
    rw [List.append_assoc, hfirst.readBody?, ih]
    rfl

/-- Nothing that is spelled out has a control character or a line separator in it. -/
theorem isShown_of_mem (h : SpelledOut value body) {d : Char} (hd : d ∈ body) :
    (isControl d || isLineSeparator d) = false := by
  induction h with
  | nil => exact absurd hd List.not_mem_nil
  | cons hfirst _ ih => exact (List.mem_append.mp hd).elim hfirst.isShown_of_mem ih

end SpelledOut

/-! ## Literals in generated code -/

theorem hexValue?_hexDigit {n : Nat} (h : n < 16) : hexValue? (hexDigit n) = some n := by
  have hall : ∀ n < 16, hexValue? (hexDigit n) = some n := by decide
  exact hall n h

/-- Four digits write every number below `65536`. -/
theorem hexNumber?_fourHexDigits {n : Nat} (h : n < 65536) :
    hexNumber? (fourHexDigits n) = some n := by
  simp only [hexNumber?, fourHexDigits, List.foldlM_cons, List.foldlM_nil, Option.pure_def,
    Option.bind_eq_bind, Option.map_some, Option.bind_some,
    hexValue?_hexDigit (Nat.mod_lt _ (by decide : 0 < 16)), Option.some.injEq]
  omega

theorem codePoint?_fourHexDigits {c : Char} (h : c.toNat < 65536) :
    codePoint? (fourHexDigits c.toNat) = some c := by
  have hvalid : c.toNat.isValidChar := c.valid
  rw [codePoint?, hexNumber?_fourHexDigits h, Option.bind_some, if_pos hvalid, Char.ofNat_toNat]

theorem toNat_lt_of_isControl_or_isLineSeparator {c : Char}
    (h : (isControl c || isLineSeparator c) = true) : c.toNat < 65536 := by
  simp only [isControl, isLineSeparator, Bool.or_eq_true, Bool.and_eq_true, decide_eq_true_eq,
    beq_iff_eq] at h
  omega

theorem writtenAs_escapeChar (c : Char) : WrittenAs c (escapeChar c) := by
  fun_cases escapeChar c with
  | case1 hslash => exact .short (by rw [hslash]; decide)
  | case2 _ hquote => exact .short (by rw [hquote]; decide)
  | case3 _ _ hfeed => exact .short (by rw [hfeed]; decide)
  | case4 _ _ _ hreturn => exact .short (by rw [hreturn]; decide)
  | case5 _ _ _ _ htab => exact .short (by rw [htab]; decide)
  | case6 _ _ _ _ _ hhidden =>
    exact .numbered rfl
      (codePoint?_fourHexDigits (toNat_lt_of_isControl_or_isLineSeparator hhidden))
  | case7 hslash hquote _ _ _ hshown => exact .plain hquote hslash (Bool.eq_false_iff.mpr hshown)

theorem spelledOut_escape (cs : List Char) : SpelledOut cs (escape cs) := by
  induction cs with
  | nil => exact .nil
  | cons c cs ih => exact .cons (writtenAs_escapeChar c) ih

/-- A literal is read as the text that was quoted, whatever comes after it. -/
theorem readLiteral?_literal (text : String) (rest : List Char) :
    readLiteral? ((literal text).toList ++ rest) = some (text, rest) := by
  rw [literal, String.toList_ofList, literalChars, List.cons_append, List.append_assoc,
    readLiteral?, if_pos (Or.inl rfl)]
  have hbody := (spelledOut_escape text.toList).readBody? rest
  rw [List.singleton_append, hbody, Option.map_some, Prod.map_apply, String.ofList_toList]
  rfl

/-- Different texts have different literals. -/
theorem literal_injective {first second : String} (h : literal first = literal second) :
    first = second := by
  have hfirst := readLiteral?_literal first []
  rw [h, readLiteral?_literal second []] at hfirst
  exact (Prod.mk.inj (Option.some.inj hfirst)).1.symm

/-- A literal stays on its line. -/
theorem isLineEnd_of_mem_literal {text : String} {d : Char} (h : d ∈ (literal text).toList) :
    isLineEnd d = false := by
  have hquote : isLineEnd '"' = false := by decide
  rw [literal, String.toList_ofList, literalChars] at h
  rcases List.mem_cons.mp h with rfl | h
  · exact hquote
  rcases List.mem_append.mp h with hescape | hmark
  · exact isLineEnd_of_isShown ((spelledOut_escape text.toList).isShown_of_mem hescape)
  · rw [List.mem_singleton.mp hmark]
    exact hquote

end Quoted

end ModuleLinker
