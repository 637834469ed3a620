import LinkedMarkup.ContentKind
import LinkedMarkup.Output.Adapter
import LinkedMarkup.Proofs.Text.JsonTokens

namespace LinkedMarkup

namespace Table
variable {α : Type} {table : Table α}

instance : Decidable table.Sorted := inferInstanceAs (Decidable (List.Pairwise _ _))

/-- A greater key than all others comes last. -/
theorem insert_last {key : String} {value : α} (sorted : Sorted (table ++ [(key, value)])) :
    table.insert key value = table ++ [(key, value)] := by
  induction table with
  | nil => rfl
  | cons first rest ih =>
    obtain ⟨above, others⟩ := List.pairwise_cons.mp sorted
    have greater : first.1 < key := above (key, value) (by simp)
    rw [insert, if_neg (String.lt_asymm greater), if_neg (Ne.symm (String.ne_of_lt greater)), ih others]
    rfl

end Table

namespace Value

/-- The objects at every depth are tables. -/
inductive Orderly : Value → Prop where
  | null : Orderly null
  | bool (b : Bool) : Orderly (bool b)
  | int (n : Int64) : Orderly (int n)
  | float (x : Binary64) : Orderly (float x)
  | text (s : String) : Orderly (text s)
  | array {items : List Value} (each : ∀ item ∈ items, Orderly item) : Orderly (array items)
  | object {entries : Table Value} (sorted : entries.Sorted) (each : ∀ entry ∈ entries, Orderly entry.2) :
      Orderly (object entries)

end Value

namespace Json

/-! ### Reading -/

/-- A value is read from its tokens wherever one may come, if arrays and objects are not nested too deeply. -/
def Reads (value : Value) : Prop := ∀ (stack : List Frame) (mayEnd : Bool), stack.length ≤ nestingLimit →
  (tokens value).foldlM Reading.next? ⟨stack, .value mayEnd⟩ =
    if stack.length + value.depth ≤ nestingLimit then some ⟨stack, .separator value⟩ else none

theorem Reads.followed {value : Value} (reads : Reads value) {stack : List Frame} {mayEnd : Bool}
    (room : stack.length ≤ nestingLimit) (behind : List Token) :
    (tokens value ++ behind).foldlM Reading.next? ⟨stack, .value mayEnd⟩ =
      if stack.length + value.depth ≤ nestingLimit then behind.foldlM Reading.next? ⟨stack, .separator value⟩
      else none := by
  rw [List.foldlM_append, reads stack mayEnd room]
  split <;> rfl

theorem joined_single {α : Type} (spelled : α → List Token) (first : α) (ending : List Token) :
    [Token.comma].intercalate ([first].map spelled) ++ ending = spelled first ++ ending := by
  rw [List.map_singleton, List.intercalate_singleton]

theorem joined_cons {α : Type} (spelled : α → List Token) (first second : α) (rest : List α)
    (ending : List Token) : [Token.comma].intercalate ((first :: second :: rest).map spelled) ++ ending =
      spelled first ++ .comma :: ([Token.comma].intercalate ((second :: rest).map spelled) ++ ending) := by
  simp only [List.map_cons, List.intercalate_cons_cons, List.append_assoc, List.cons_append, List.nil_append]

theorem reads_items {stack : List Frame} {item : Value} {others read : List Value} {mayEnd : Bool}
    (each : ∀ value ∈ item :: others, Reads value) (room : stack.length < nestingLimit) :
    ([Token.comma].intercalate ((item :: others).map tokens) ++ [Token.closeArray]).foldlM Reading.next?
        ⟨.array read :: stack, .value mayEnd⟩ =
      if stack.length + 1 + Value.depthItems (item :: others) ≤ nestingLimit then
        some ⟨stack, .separator (.array (read.reverse ++ item :: others))⟩ else none := by
  have inside (read : List Value) : (Frame.array read :: stack).length ≤ nestingLimit := room
  induction others generalizing item read mayEnd with
  | nil =>
    have ended : [Token.closeArray].foldlM Reading.next? ⟨.array read :: stack, .separator item⟩ =
        some ⟨stack, .separator (.array (read.reverse ++ [item]))⟩ := by
      rw [← List.reverse_cons]
      rfl
    rw [joined_single, (each item List.mem_cons_self).followed (inside read), ended]
    apply if_congr _ rfl rfl
    rw [List.length_cons, Value.depthItems, Value.depthItems, Nat.max_zero]
  | cons second others ih =>
    obtain ⟨first, more⟩ := List.forall_mem_cons.mp each
    rw [joined_cons, first.followed (inside read)]
    show (if _ then List.foldlM Reading.next? ⟨.array (item :: read) :: stack, .value false⟩ _ else none) = _
    rw [ih more, List.reverse_cons, List.append_assoc, ← ite_and]
    apply if_congr _ rfl rfl
    show _ ↔ stack.length + 1 + max item.depth (Value.depthItems (second :: others)) ≤ nestingLimit
    rw [List.length_cons]
    omega

theorem reads_entries {stack : List Frame} {entry : String × Value} {others read : Table Value} {key : String}
    {mayEnd : Bool} (each : ∀ one ∈ entry :: others, Reads one.2)
    (sorted : Table.Sorted (read ++ entry :: others)) (room : stack.length < nestingLimit) :
    ([Token.comma].intercalate ((entry :: others).map fun one => .quoted one.1 :: .colon :: tokens one.2) ++
        [Token.closeObject]).foldlM Reading.next? ⟨.object read key :: stack, .key mayEnd⟩ =
      if stack.length + 1 + Value.depthEntries (entry :: others) ≤ nestingLimit then
        some ⟨stack, .separator (.object (read ++ entry :: others))⟩ else none := by
  have inside (read : Table Value) (key : String) : (Frame.object read key :: stack).length ≤ nestingLimit := room
  induction others generalizing entry read key mayEnd with
  | nil =>
    have ended : [Token.closeObject].foldlM Reading.next? ⟨.object read entry.1 :: stack, .separator entry.2⟩ =
        some ⟨stack, .separator (.object (read ++ [entry]))⟩ := by
      rw [← Table.insert_last sorted]
      rfl
    rw [joined_single]
    show List.foldlM Reading.next? ⟨.object read entry.1 :: stack, .value false⟩ (tokens entry.2 ++ _) = _
    rw [(each entry List.mem_cons_self).followed (inside read entry.1), ended]
    apply if_congr _ rfl rfl
    rw [List.length_cons, Value.depthEntries, Value.depthEntries, Nat.max_zero]
  | cons second others ih =>
    obtain ⟨first, more⟩ := List.forall_mem_cons.mp each
    have front : Table.Sorted (read ++ [entry]) :=
      List.Pairwise.sublist (List.Sublist.append_left (by simp) read) sorted
    rw [joined_cons]
    show List.foldlM Reading.next? ⟨.object read entry.1 :: stack, .value false⟩ (tokens entry.2 ++ _) = _
    rw [first.followed (inside read entry.1)]
    show (if _ then
      List.foldlM Reading.next? ⟨.object (read.insert entry.1 entry.2) entry.1 :: stack, .key false⟩ _
      else none) = _
    rw [Table.insert_last front, ih more (by simpa using sorted), List.append_assoc, ← ite_and]
    apply if_congr _ rfl rfl
    show _ ↔ stack.length + 1 + max entry.2.depth (Value.depthEntries (second :: others)) ≤ nestingLimit
    rw [List.length_cons]
    omega

/-- The tokens of a value whose objects are tables are read as the value. -/
theorem reads_of_orderly {value : Value} (orderly : value.Orderly) : Reads value := by
  induction orderly with
  | null | bool _ | int _ | float _ | text _ =>
    intro stack mayEnd room
    rw [if_pos (by simpa [Value.depth] using room)]
    rfl
  | @array items each ih =>
    intro stack mayEnd _
    rw [tokens, itemTokens_eq_map, List.cons_append, List.foldlM_cons]
    show ((Reading.mk stack _).open? (.array []) (.value true)).bind _ = _
    rw [Value.depth, ← Nat.add_assoc, Reading.open?]
    by_cases room : stack.length < nestingLimit
    · rw [if_pos room]
      cases items with
      | nil => exact (if_pos room).symm
      | cons item others => exact reads_items ih room
    · rw [if_neg room, if_neg (by omega)]
      rfl
  | @object entries sorted each ih =>
    intro stack mayEnd _
    rw [tokens, entryTokens_eq_map, List.cons_append, List.foldlM_cons]
    show ((Reading.mk stack _).open? (.object [] "") (.key true)).bind _ = _
    rw [Value.depth, ← Nat.add_assoc, Reading.open?]
    by_cases room : stack.length < nestingLimit
    · rw [if_pos room]
      cases entries with
      | nil => exact (if_pos room).symm
      | cons entry others => exact reads_entries ih sorted room
    · rw [if_neg room, if_neg (by omega)]
      rfl

/-- What is written is read back, if it is not nested too deeply for the reader. -/
theorem read?_write {value : Value} (orderly : value.Orderly) (floatless : value.Floatless) (spacing : Spacing) :
    read? (write spacing value) = if value.depth ≤ nestingLimit then some value else none := by
  have reads := reads_of_orderly orderly [] false (Nat.zero_le _)
  rw [List.length_nil, Nat.zero_add] at reads
  rw [read?, lex_write floatless]
  show ((tokens value).foldlM Reading.next? {}).bind Reading.result? = _
  rw [reads]
  split <;> rfl

end Json

theorem Adapter.json_render {value : Value} {options : RenderOptions} (rendered : value.depth ≤ options.maxDepth) :
    Adapter.json.render options value = Json.write ⟨options.pretty, 0⟩ value := by
  show Adapter.guarded Adapter.writeJson options value = _
  rw [Adapter.guarded, if_pos rendered, Adapter.writeJson]
  cases options.pretty <;> rfl

/-- JSON can be read back. A value without floats, rendered on one line or on many, is decoded as just this value
if arrays and objects are nested at most 127 deep, and as no value if they are nested deeper. -/
theorem decode_json {value : Value} (orderly : value.Orderly) (floatless : value.Floatless) (options : RenderOptions)
    (rendered : value.depth ≤ options.maxDepth) (key : String) :
    (value.depth ≤ 127 → decode key (Adapter.json.render options value) .json = .ok (.data value)) ∧
    (127 < value.depth →
      ∃ message, decode key (Adapter.json.render options value) .json = .error (.decode key message)) := by
  have reads := Json.read?_write orderly floatless ⟨options.pretty, 0⟩
  rw [Json.nestingLimit] at reads
  rw [Adapter.json_render rendered]
  constructor
  · intro shallow
    rw [if_pos shallow] at reads
    rw [decode, reads]
  · intro deep
    rw [if_neg (Nat.not_le.mpr deep)] at reads
    exact ⟨_, by rw [decode, reads]⟩

/-- Marks, escapes and the least integer inside of each other; and a value nested one level too deeply, which is
still rendered. -/
theorem decode_json_nested :
    let value : Value := .object [("", .array [.null, .array [], .text "\x00\"\\/\n\x7f😀"]),
      ("a: \"1\"", .object [("n", .int Int64.minValue), ("t", .bool true)])]
    let tower (n : Nat) : Value := Nat.rec .null (fun _ inner => .array [inner]) n
    (value.Orderly ∧ value.Floatless ∧ value.depth = 3 ∧
      ∀ pretty, decode "s:k" (Adapter.json.render { pretty, maxDepth := 3 } value) .json = .ok (.data value)) ∧
    (tower 128).Orderly ∧ (tower 128).Floatless ∧ (tower 128).depth = 128 ∧
      ∃ message, decode "s:k" (Adapter.json.render {} (tower 128)) .json = .error (.decode "s:k" message) := by
  intro value tower
  have orderly : value.Orderly := by
    refine .object (by decide)
      (List.forall_mem_cons.mpr ⟨.array ?_, List.forall_mem_singleton.mpr (.object (by decide) ?_)⟩)
    · simpa using ⟨.null, .array (List.forall_mem_nil _), .text _⟩
    · simpa using ⟨.int _, .bool _⟩
  have floatless : value.Floatless := by
    refine .object (List.forall_mem_cons.mpr ⟨.array ?_, List.forall_mem_singleton.mpr (.object ?_)⟩)
    · simpa using ⟨.null, .array (List.forall_mem_nil _), .text _⟩
    · simpa using ⟨.int _, .bool _⟩
  have high (n : Nat) : (tower n).Orderly ∧ (tower n).Floatless ∧ (tower n).depth = n := by
    induction n with
    | zero => exact ⟨.null, .null, rfl⟩
    | succ n ih =>
      obtain ⟨towering, bare, deep⟩ := ih
      refine ⟨.array (List.forall_mem_singleton.mpr towering), .array (List.forall_mem_singleton.mpr bare), ?_⟩
      show 1 + max (tower n).depth 0 = n + 1
      omega
  obtain ⟨towering, bare, deep⟩ := high 128
  have rendered : (tower 128).depth ≤ ({} : RenderOptions).maxDepth := by
    rw [deep]
  have above : 127 < (tower 128).depth := by
    rw [deep]
    exact Nat.lt_succ_self 127
  refine ⟨⟨orderly, floatless, rfl, fun pretty => ?_⟩, towering, bare, deep, ?_⟩
  · exact (decode_json orderly floatless { pretty, maxDepth := 3 } (Nat.le_refl 3) "s:k").1 (by decide)
  · exact (decode_json towering bare {} rendered "s:k").2 above

end LinkedMarkup
