import LinkedMarkup.Json.Token
import LinkedMarkup.Json.Writer
import LinkedMarkup.Proofs.Text.TextParts
import Mathlib.Data.List.TakeWhile

namespace LinkedMarkup

namespace Value

/-- There is no float at any depth. -/
inductive Floatless : Value → Prop where
  | null : Floatless null
  | bool (b : Bool) : Floatless (bool b)
  | int (n : Int64) : Floatless (int n)
  | text (s : String) : Floatless (text s)
  | array {items : List Value} (each : ∀ item ∈ items, Floatless item) : Floatless (array items)
  | object {entries : Table Value} (each : ∀ entry ∈ entries, Floatless entry.2) : Floatless (object entries)

end Value

namespace Json
variable {read rest cs : List Char}

/-! ### Quoted texts -/

private theorem hexDigit?_lowerHex : ∀ n < 16, hexDigit? (lowerHex n) = some n := by decide

private theorem lex_control {c : Char} (control : c.toNat < 0x20) :
    lex (.quote read) ('\\' :: 'u' :: '0' :: '0' :: lowerHex (c.toNat / 16) :: lowerHex (c.toNat % 16) :: rest) =
      lex (.quote (c :: read)) rest := by
  have high := hexDigit?_lowerHex (c.toNat / 16) (by omega)
  have low := hexDigit?_lowerHex (c.toNat % 16) (by omega)
  have value : 16 * (16 * 0 + c.toNat / 16) + c.toNat % 16 = c.toNat := by omega
  have done : unitDone read none c.toNat = some (.quote (c :: read)) := by
    have surrogate : ¬ 0xD800 ≤ c.toNat := by omega
    have second : ¬ 0xDC00 ≤ c.toNat := by omega
    simp [unitDone, surrogate, second]
  calc lex (.quote read) _
      = lex (.unit read none 2 0) (lowerHex (c.toNat / 16) :: lowerHex (c.toNat % 16) :: rest) := rfl
    _ = lex (.unit read none 3 (16 * 0 + c.toNat / 16)) (lowerHex (c.toNat % 16) :: rest) := by
        rw [lex, high]
        rfl
    _ = lex (.quote (c :: read)) rest := by
        rw [lex, low]
        simp only [Nat.lt_irrefl, if_false, value, done]

/-- An escaped character is read as the character. -/
theorem lex_escapeChar (c : Char) :
    lex (.quote read) (escapeChar c ++ rest) = lex (.quote (c :: read)) rest := by
  unfold escapeChar
  split_ifs with mark backslash b f n r t control
  · rw [beq_iff_eq.mp mark]; rfl
  · rw [beq_iff_eq.mp backslash]; rfl
  · rw [beq_iff_eq.mp b]; rfl
  · rw [beq_iff_eq.mp f]; rfl
  · rw [beq_iff_eq.mp n]; rfl
  · rw [beq_iff_eq.mp r]; rfl
  · rw [beq_iff_eq.mp t]; rfl
  · exact lex_control control
  · rw [List.singleton_append, lex, if_neg mark, if_neg backslash, if_neg control]

theorem lex_quoted (cs : List Char) : lex (.quote read) (cs.flatMap escapeChar ++ '\x22' :: rest) =
    (lex .between rest).map (.quoted (String.ofList (read.reverse ++ cs)) :: ·) := by
  induction cs generalizing read with
  | nil => rw [List.append_nil]; rfl
  | cons c others ih =>
    rw [List.flatMap_cons, List.append_assoc, lex_escapeChar, ih, List.reverse_cons, List.append_assoc]
    rfl

/-! ### Integers -/

theorem head_toDigits {n : Nat} (positive : 0 < n) : (Nat.toDigits 10 n).head? ≠ some '0' := by
  induction n using Nat.strongRecOn with
  | ind n ih =>
    by_cases small : n < 10
    · have digits : ∀ n < 10, 0 < n → [n.digitChar].head? ≠ some '0' := by decide
      rw [Nat.toDigits_of_lt_base small]
      exact digits n small positive
    · rw [Nat.toDigits_of_base_le (by decide) (by omega),
        List.head?_append_of_ne_nil _ Nat.toDigits_ne_nil]
      exact ih (n / 10) (by omega) (by omega)

theorem isDigit_toDigits (n : Nat) : ∀ c ∈ Nat.toDigits 10 n, c.isDigit = true :=
  fun _ member => Nat.isDigit_of_mem_toDigits (by decide) (by decide) member

theorem digits?_toDigits (n : Nat) : Numeral.digits? (Nat.toDigits 10 n) = some n :=
  Numeral.digits?_eq_some_iff.mpr
    ⟨Nat.toDigits_ne_nil, isDigit_toDigits n, Nat.ofDigitChars_ten_toDigits.symm⟩

theorem isWhole_toDigits (n : Nat) : isWhole (Nat.toDigits 10 n) = true := by
  rcases Nat.eq_zero_or_pos n with rfl | positive
  · rfl
  · have first := head_toDigits positive
    have digits := isDigit_toDigits n
    have written : Nat.toDigits 10 n ≠ [] := Nat.toDigits_ne_nil
    unfold isWhole
    split
    · rfl
    · next same => exact absurd (by rw [same]; rfl) first
    · rw [Bool.and_eq_true, List.all_eq_true, Bool.not_eq_true', List.isEmpty_eq_false_iff]
      exact ⟨written, digits⟩

theorem isNumber_toDigits (n : Nat) : isNumber (Nat.toDigits 10 n) = true := by
  have digits := isDigit_toDigits n
  have all : (Nat.toDigits 10 n).takeWhile Char.isDigit = Nat.toDigits 10 n :=
    List.takeWhile_eq_self_iff.mpr digits
  have none : (Nat.toDigits 10 n).dropWhile Char.isDigit = [] := List.dropWhile_eq_nil_iff.mpr digits
  have decimal : (Binary64.decimal? (Nat.toDigits 10 n)).isSome = true := by
    simp only [Binary64.decimal?, all, none, List.append_nil, digits?_toDigits]
    rfl
  rw [isNumber, all, none, isWhole_toDigits, decimal]
  rfl

/-- The digits of an integer, which has no sign if it is zero. -/
theorem number?_toDigits {negative : Bool} {n : Nat} {value : Int64} (signed : negative = true → 0 < n)
    (fits : Numeral.fit64? (if negative then -n else n) = some value) :
    number? negative (Nat.toDigits 10 n) = some (.int value) := by
  have zero : (negative && n == 0) = false := by
    cases negative with
    | false => rfl
    | true => simpa using Nat.ne_of_gt (signed rfl)
  simp only [number?, isNumber_toDigits, digits?_toDigits, Option.bind_some, zero, fits, Bool.not_true,
    Bool.false_eq_true, if_false]

/-- What does not begin as a constant does is a number. -/
theorem word?_number (cs : List Char) : cs.head? ∉ [some 'n', some 't', some 'f'] → word? cs =
    match cs with
    | '-' :: rest => number? true rest
    | _ => number? false cs := by
  intro other
  have apart {word : String} (same : String.ofList cs = word) : cs.head? = word.toList.head? := by
    rw [← same, String.toList_ofList]
  unfold word?
  split
  · next same => exact absurd (apart same ▸ by simp) other
  · next same => exact absurd (apart same ▸ by simp) other
  · next same => exact absurd (apart same ▸ by simp) other
  · rfl

theorem fit64?_toInt (n : Int64) : Numeral.fit64? n.toInt = some n := by
  have least := n.le_toInt
  have greatest := n.toInt_lt
  rw [Numeral.fit64?, Int64.ofInt_toInt]
  exact if_pos ⟨by simpa [Numeral.signedLimit] using least, by simpa [Numeral.signedLimit] using greatest⟩

/-- Integers of 64 bits are read as they were written. -/
theorem word?_signedText (n : Int64) : word? (Numeral.signedText n.toInt).toList = some (.int n) := by
  have fits := fit64?_toInt n
  rw [Numeral.signedText]
  split
  · next negative =>
    have text : ("-" ++ Numeral.text n.toInt.natAbs).toList = '-' :: Nat.toDigits 10 n.toInt.natAbs := by
      simp only [String.toList_append, Numeral.text, String.toList_ofList]
      rfl
    have same : -(n.toInt.natAbs : Int) = n.toInt := by omega
    rw [text, word?_number _ (by simp)]
    apply number?_toDigits
    · intro _
      omega
    · rwa [if_pos rfl, same]
  · next positive =>
    have same : (n.toInt.natAbs : Int) = n.toInt := by omega
    have digits := isDigit_toDigits n.toInt.natAbs
    have value : number? false (Nat.toDigits 10 n.toInt.natAbs) = some (.int n) := by
      apply number?_toDigits
      · exact nofun
      · rwa [if_neg Bool.false_ne_true, same]
    rw [Numeral.text, String.toList_ofList]
    obtain ⟨c, others, text⟩ := List.exists_cons_of_ne_nil (Nat.toDigits_ne_nil (n := n.toInt.natAbs) (b := 10))
    rw [text] at digits value ⊢
    have first : c.isDigit = true := digits c List.mem_cons_self
    rw [word?_number]
    · split
      · next sign =>
        cases (List.cons.inj sign).1
        cases first
      · exact value
    · intro constant
      simp only [List.head?_cons, List.mem_cons, Option.some.injEq, List.not_mem_nil, or_false] at constant
      rcases constant with rfl | rfl | rfl <;> cases first

theorem endsWord_of_isDigit {c : Char} (digit : c.isDigit = true) : endsWord c = false := by
  have apart {d : Char} (other : d.isDigit = false) : (c == d) = false := by
    rw [beq_eq_false_iff_ne]
    rintro rfl
    rw [digit] at other
    cases other
  have mark : mark? c = none := by
    unfold mark?
    split
    all_goals first | rfl | cases digit
  simp only [endsWord, isSpace, mark, apart (d := ' ') rfl, apart (d := '\n') rfl, apart (d := '\t') rfl,
    apart (d := '\r') rfl, apart (d := '\x22') rfl]
  rfl

/-- No character of an integer ends a word. -/
theorem signedText_plain (n : Int) : ∀ c ∈ (Numeral.signedText n).toList, endsWord c = false := by
  have digits (n : Nat) : ∀ c ∈ (Numeral.text n).toList, endsWord c = false := by
    intro c member
    rw [Numeral.text, String.toList_ofList] at member
    exact endsWord_of_isDigit (isDigit_toDigits n c member)
  rw [Numeral.signedText]
  split
  · rw [String.toList_append]
    intro c member
    rcases List.mem_append.mp member with sign | digit
    · cases List.mem_singleton.mp sign
      rfl
    · exact digits _ c digit
  · exact digits _

/-! ### Tokens -/

mutual
def tokens : Value → List Token
  | .array items => .openArray :: [Token.comma].intercalate (itemTokens items) ++ [.closeArray]
  | .object entries => .openObject :: [Token.comma].intercalate (entryTokens entries) ++ [.closeObject]
  | .text s => [.quoted s]
  | value => [.scalar value]
def itemTokens : List Value → List (List Token)
  | [] => []
  | item :: rest => tokens item :: itemTokens rest
def entryTokens : Table Value → List (List Token)
  | [] => []
  | (key, value) :: rest => (.quoted key :: .colon :: tokens value) :: entryTokens rest
end

theorem itemTokens_eq_map (items : List Value) : itemTokens items = items.map tokens := by
  induction items with
  | nil => rw [itemTokens, List.map_nil]
  | cons item rest ih => rw [itemTokens, List.map_cons, ih]

theorem entryTokens_eq_map (entries : Table Value) :
    entryTokens entries = entries.map fun entry => .quoted entry.1 :: .colon :: tokens entry.2 := by
  induction entries with
  | nil => rw [entryTokens, List.map_nil]
  | cons entry rest ih => rw [entryTokens, List.map_cons, ih]

theorem writeItems_eq_map (spacing : Spacing) (items : List Value) :
    writeItems spacing items = items.map (write spacing) := by
  induction items with
  | nil => rw [writeItems, List.map_nil]
  | cons item rest ih => rw [writeItems, List.map_cons, ih]

theorem writeEntries_eq_map (spacing : Spacing) (entries : Table Value) : writeEntries spacing entries =
    entries.map fun entry => quote entry.1 ++ ":" ++ spacing.afterColon ++ write spacing entry.2 := by
  induction entries with
  | nil => rw [writeEntries, List.map_nil]
  | cons entry rest ih => rw [writeEntries, List.map_cons, ih]

def Ends (rest : List Char) : Prop := ∀ c ∈ rest.head?, endsWord c = true

theorem Ends.append {first second : List Char} (one : Ends first) (other : Ends second) :
    Ends (first ++ second) := by
  cases first with
  | nil => exact other
  | cons c rest => exact one

/-- The characters are read as these tokens, whatever comes behind them. -/
def Closed (cs : List Char) (tokens : List Token) : Prop :=
  ∀ rest, lex .between (cs ++ rest) = (lex .between rest).map (tokens ++ ·)

/-- The characters are read as these tokens where a word may end behind them. -/
def Spells (cs : List Char) (tokens : List Token) : Prop :=
  ∀ rest, Ends rest → lex .between (cs ++ rest) = (lex .between rest).map (tokens ++ ·)

variable {first second : List Char} {front back : List Token}

theorem Closed.spells (closed : Closed cs front) : Spells cs front := by
  intro rest _
  exact closed rest

private theorem map_append_twice (outcome : Option (List Token)) :
    (outcome.map (back ++ ·)).map (front ++ ·) = outcome.map (front ++ back ++ ·) := by
  cases outcome with
  | none => rfl
  | some tokens => exact congrArg some (List.append_assoc front back tokens).symm

theorem Closed.append (one : Closed first front) (other : Closed second back) :
    Closed (first ++ second) (front ++ back) := by
  intro rest
  rw [List.append_assoc, one, other, map_append_twice]

theorem Closed.append_spells (one : Closed first front) (other : Spells second back) :
    Spells (first ++ second) (front ++ back) := by
  intro rest ends
  rw [List.append_assoc, one, other rest ends, map_append_twice]

theorem Spells.append_closed (one : Spells first front) (other : Closed second back) (ends : Ends second)
    (written : second ≠ []) : Closed (first ++ second) (front ++ back) := by
  intro rest
  have here : Ends (second ++ rest) := by
    obtain ⟨c, others, rfl⟩ := List.exists_cons_of_ne_nil written
    exact ends
  rw [List.append_assoc, one _ here, other, map_append_twice]

theorem closed_nil : Closed [] [] := by
  intro rest
  exact Option.map_id'.symm

theorem closed_mark {c : Char} {mark : Token} (found : mark? c = some mark) (other : isSpace c = false) :
    Closed [c] [mark] := by
  intro rest
  rw [List.singleton_append, lex, begin, other, if_neg Bool.false_ne_true, found]

theorem closed_spaces {cs : List Char} (spaces : ∀ c ∈ cs, isSpace c = true) : Closed cs [] := by
  induction cs with
  | nil => exact closed_nil
  | cons c others ih =>
    intro rest
    obtain ⟨space, more⟩ := List.forall_mem_cons.mp spaces
    rw [List.cons_append, lex, begin, if_pos space]
    show (lex .between (others ++ rest)).map ([] ++ ·) = _
    rw [ih more rest]
    exact map_append_twice _

theorem closed_quote (s : String) : Closed (quote s).toList [.quoted s] := by
  intro rest
  have text : (quote s).toList ++ rest = '\x22' :: (s.toList.flatMap escapeChar ++ '\x22' :: rest) := by
    simp [quote]
  rw [text, lex]
  show (lex (.quote []) _).map ([] ++ ·) = _
  rw [lex_quoted]
  simp
  rfl

private theorem lex_word {read cs : List Char} {value : Value} (plain : ∀ c ∈ cs, endsWord c = false)
    (reads : word? (read.reverse ++ cs) = some value) (ends : Ends rest) :
    lex (.word read) (cs ++ rest) = (lex .between rest).map (.scalar value :: ·) := by
  induction cs generalizing read with
  | nil =>
    rw [List.append_nil] at reads
    cases rest with
    | nil => simp [lex, reads]
    | cons c others =>
      have ended : endsWord c = true := ends c rfl
      simp only [List.nil_append, lex, ended, if_true, reads]
      cases lex (begin c).2 others <;> rfl
  | cons c others ih =>
    obtain ⟨inside, more⟩ := List.forall_mem_cons.mp plain
    rw [List.cons_append, lex, inside, if_neg Bool.false_ne_true]
    apply ih more
    rw [List.reverse_cons, List.append_assoc]
    exact reads

theorem spells_word {value : Value} (written : cs ≠ []) (plain : ∀ c ∈ cs, endsWord c = false)
    (reads : word? cs = some value) : Spells cs [.scalar value] := by
  intro rest ends
  obtain ⟨c, others, rfl⟩ := List.exists_cons_of_ne_nil written
  obtain ⟨inside, more⟩ := List.forall_mem_cons.mp plain
  have starts : begin c = ([], .word [c]) := by
    simp only [endsWord, Bool.or_eq_false_iff, Option.isSome_eq_false_iff, Option.isNone_iff_eq_none] at inside
    obtain ⟨⟨space, mark⟩, quoted⟩ := inside
    rw [begin, space, if_neg Bool.false_ne_true, mark]
    exact if_neg (by simpa using quoted)
  rw [List.cons_append, lex, starts]
  have read : lex (.word [c]) (others ++ rest) = (lex .between rest).map (.scalar value :: ·) :=
    lex_word more reads ends
  rw [read]
  cases lex .between rest <;> rfl

theorem spells_constant {value : Value} (written : cs ≠ []) (plain : cs.all (!endsWord ·) = true)
    (reads : word? cs = some value) : Spells cs [.scalar value] := by
  apply spells_word written ?_ reads
  intro c member
  rw [← Bool.not_eq_true']
  exact List.all_eq_true.mp plain c member

variable {α : Type} {text : α → String} {spelled : α → List Token}

theorem closed_break (spacing : Spacing) : Closed spacing.break.toList [] := by
  apply closed_spaces
  unfold Spacing.break
  split
  · intro c member
    simp only [String.toList_append, String.toList_ofList] at member
    rcases List.mem_append.mp member with line | indentation
    · cases List.mem_singleton.mp line
      rfl
    · cases List.eq_of_mem_replicate indentation
      rfl
  · exact List.forall_mem_nil _

theorem closed_afterColon (spacing : Spacing) : Closed spacing.afterColon.toList [] := by
  apply closed_spaces
  unfold Spacing.afterColon
  split
  · intro c member
    cases List.mem_singleton.mp member
    rfl
  · exact List.forall_mem_nil _

theorem ends_break (spacing : Spacing) : Ends spacing.break.toList := by
  unfold Spacing.break
  split
  · rw [String.toList_append]
    intro c first
    cases first
    rfl
  · exact nofun

/-- Parts with commas and spaces between them. -/
theorem spells_join (spacing : Spacing) {first : α} {rest : List α}
    (each : ∀ part ∈ first :: rest, Spells (text part).toList (spelled part)) :
    Spells (Text.join ("," ++ spacing.break) ((first :: rest).map text)).toList
      ([Token.comma].intercalate ((first :: rest).map spelled)) := by
  have gap : Closed ("," ++ spacing.break).toList [.comma] := by
    rw [String.toList_append]
    exact (closed_mark rfl rfl).append (closed_break spacing)
  have ends : Ends ("," ++ spacing.break).toList := by
    rw [String.toList_append]
    exact fun c begins => by cases begins; rfl
  have written : ("," ++ spacing.break).toList ≠ [] := by
    rw [String.toList_append]
    exact List.cons_ne_nil _ _
  rw [Text.join, String.toList_intercalate]
  induction rest generalizing first with
  | nil => simpa using each
  | cons second others ih =>
    obtain ⟨one, more⟩ := List.forall_mem_cons.mp each
    simp only [List.map_cons, List.intercalate_cons_cons]
    exact (one.append_closed gap ends written).append_spells (ih more)

theorem closed_enclose (spacing : Spacing) {opening closing : String} {one other : Token}
    (opens : Closed opening.toList [one]) (closes : Closed closing.toList [other])
    (ends : Ends closing.toList) (written : closing.toList ≠ []) {parts : List α}
    (each : ∀ part ∈ parts, Spells (text part).toList (spelled part)) :
    Closed (spacing.enclose opening closing (parts.map text)).toList
      (one :: [Token.comma].intercalate (parts.map spelled) ++ [other]) := by
  cases parts with
  | nil =>
    show Closed (opening ++ closing).toList _
    rw [String.toList_append]
    exact opens.append closes
  | cons first rest =>
    have back : Closed (spacing.break.toList ++ closing.toList) [other] := (closed_break spacing).append closes
    have joined := (spells_join spacing.deeper each).append_closed back ((ends_break spacing).append ends)
      (List.append_ne_nil_of_right_ne_nil _ written)
    have front : Closed (opening.toList ++ spacing.deeper.break.toList) [one] :=
      opens.append (closed_break spacing.deeper)
    have text : (spacing.enclose opening closing ((first :: rest).map text)).toList =
        opening.toList ++ spacing.deeper.break.toList ++
          ((Text.join ("," ++ spacing.deeper.break) ((first :: rest).map text)).toList ++
            (spacing.break.toList ++ closing.toList)) := by
      simp [Spacing.enclose]
    rw [text]
    exact front.append joined

theorem closed_string {s : String} {c : Char} {mark : Token} (single : s.toList = [c]) (found : mark? c = some mark)
    (other : isSpace c = false) : Closed s.toList [mark] := by
  rw [single]
  exact closed_mark found other

/-- A value without floats is written in its tokens. -/
theorem spells_write {value : Value} (floatless : value.Floatless) (spacing : Spacing) :
    Spells (write spacing value).toList (tokens value) := by
  induction floatless generalizing spacing with
  | null => exact @spells_constant "null".toList .null (List.cons_ne_nil _ _) rfl rfl
  | bool b =>
    cases b with
    | true => exact @spells_constant "true".toList (.bool true) (List.cons_ne_nil _ _) rfl rfl
    | false => exact @spells_constant "false".toList (.bool false) (List.cons_ne_nil _ _) rfl rfl
  | int n =>
    have reads := word?_signedText n
    have written : (Numeral.signedText n.toInt).toList ≠ [] := by
      intro empty
      rw [empty] at reads
      cases reads
    exact spells_word written (signedText_plain _) reads
  | text s => exact (closed_quote s).spells
  | @array items each ih =>
    rw [write, tokens, writeItems_eq_map, itemTokens_eq_map]
    apply Closed.spells
    apply closed_enclose spacing (closed_string rfl rfl rfl) (closed_string rfl rfl rfl)
    · exact fun c first => by cases first; rfl
    · exact List.cons_ne_nil _ _
    · exact fun item member => ih item member spacing.deeper
  | @object entries each ih =>
    rw [write, tokens, writeEntries_eq_map, entryTokens_eq_map]
    apply Closed.spells
    apply closed_enclose spacing (closed_string rfl rfl rfl) (closed_string rfl rfl rfl)
    · exact fun c first => by cases first; rfl
    · exact List.cons_ne_nil _ _
    · intro entry member
      have key : Closed ((quote entry.1).toList ++ (":".toList ++ spacing.deeper.afterColon.toList))
          [.quoted entry.1, .colon] :=
        (closed_quote entry.1).append ((closed_string rfl rfl rfl).append (closed_afterColon spacing.deeper))
      simp only [String.toList_append, List.append_assoc]
      simpa using key.append_spells (ih entry member spacing.deeper)

theorem lex_write {value : Value} (floatless : value.Floatless) (spacing : Spacing) :
    lex .between (write spacing value).toList = some (tokens value) := by
  have whole := spells_write floatless spacing [] nofun
  rw [List.append_nil] at whole
  rw [whole]
  exact congrArg some (List.append_nil _)

end Json
end LinkedMarkup
