import SchemaGrowth.Proofs.Json.Bare
import SchemaGrowth.Schema.Json

/-!
# Nothing is lost in JSON

The JSON text of a schema determines the schema, in either layout. In the compact one all parts of
the text are values, so that the text determines them; and the pretty one is the compact one with
spaces and line breaks outside of literals, which can be deleted again.
-/

namespace SchemaGrowth

open Json

/-! ## Members -/

/-- The members of the object that is written for a column. -/
def Column.members (column : Column) : List (Text × Text) :=
  [("name".toList, string column.name), ("definition".toList, string column.definition)]

/-- The members of the object that is written for a table. -/
def Table.members (layout : Layout) (depth : Nat) (table : Table) : List (Text × Text) :=
  [ ("name".toList, string table.name),
    ("columns".toList,
      layout.array (depth + 1) (table.columns.map (Column.json layout (depth + 2)))),
    ("trailing_alter_lines".toList,
      layout.array (depth + 1) (table.alterLines.map string)) ]

/-- The members of the object that is written for a schema. -/
def Schema.members (layout : Layout) (schema : Schema) : List (Text × Text) :=
  [("tables".toList, layout.array 1 (schema.tables.map (Table.json layout 2)))]

theorem Column.json_eq (layout : Layout) (depth : Nat) (column : Column) :
    column.json layout depth = layout.object depth column.members := rfl

theorem Table.json_eq (layout : Layout) (depth : Nat) (table : Table) :
    table.json layout depth = layout.object depth (table.members layout depth) := rfl

theorem Schema.json_eq (layout : Layout) (schema : Schema) :
    schema.json layout = layout.object 0 (schema.members layout) := rfl

/-! ## The compact text -/

theorem Column.isValue_members (column : Column) : ∀ m ∈ column.members, IsValue m.2 := by
  simp [members, IsValue.string]

theorem Column.isValue_json (depth : Nat) (column : Column) :
    IsValue (column.json compact depth) := by
  rw [json_eq]
  exact .object _ _ column.isValue_members

theorem Column.compact_json_injective (depth : Nat) :
    Function.Injective (Column.json compact depth) := by
  rintro ⟨name, definition⟩ ⟨name', definition'⟩ h
  rw [json_eq, json_eq] at h
  have hmembers := compact_object_inj (isValue_members _) (isValue_members _) h
  simp only [members, List.cons.injEq, Prod.mk.injEq, true_and, and_true] at hmembers
  rw [string_inj hmembers.1, string_inj hmembers.2]

theorem Table.isValue_members (depth : Nat) (table : Table) :
    ∀ m ∈ table.members compact depth, IsValue m.2 := by
  have hcolumns := isValue_of_mem_map (l := table.columns) (Column.isValue_json (depth + 2))
  have hlines := isValue_of_mem_map (l := table.alterLines) IsValue.string
  simp only [members, List.forall_mem_cons, List.not_mem_nil, IsValue.string, true_and]
  exact ⟨.array _ _ hcolumns, .array _ _ hlines, fun _ h => h.elim⟩

theorem Table.isValue_json (depth : Nat) (table : Table) :
    IsValue (table.json compact depth) := by
  rw [json_eq]
  exact .object _ _ (table.isValue_members depth)

theorem Table.compact_json_injective (depth : Nat) :
    Function.Injective (Table.json compact depth) := by
  rintro ⟨name, columns, lines⟩ ⟨name', columns', lines'⟩ h
  rw [json_eq, json_eq] at h
  have hmembers := compact_object_inj (isValue_members depth _) (isValue_members depth _) h
  simp only [members, List.cons.injEq, Prod.mk.injEq, true_and, and_true] at hmembers
  obtain ⟨hname, hcolumns, hlines⟩ := hmembers
  rw [string_inj hname,
    compact_array_inj (Column.isValue_json _) (Column.compact_json_injective _) hcolumns,
    compact_array_inj IsValue.string (fun _ _ => string_inj) hlines]

theorem Schema.isValue_members (schema : Schema) : ∀ m ∈ schema.members compact, IsValue m.2 := by
  have htables := isValue_of_mem_map (l := schema.tables) (Table.isValue_json 2)
  simpa [members] using IsValue.array 1 _ htables

theorem Schema.compact_json_injective : Function.Injective (Schema.json compact) := by
  intro a b h
  rw [json_eq, json_eq] at h
  have hmembers := compact_object_inj a.isValue_members b.isValue_members h
  simp only [members, List.cons.injEq, Prod.mk.injEq, true_and, and_true] at hmembers
  have htables := compact_array_inj (Table.isValue_json 2) (Table.compact_json_injective 2) hmembers
  exact congrArg Schema.mk htables

/-! ## The pretty text -/

section Layouts

variable {layout : Layout} (hlayout : layout.Blank)

include hlayout

theorem Column.spaces_json (depth : Nat) (column : Column) :
    Spaces (column.json layout depth) (column.json compact depth) := by
  rw [json_eq, json_eq]
  refine .object hlayout ?_ depth depth
  exact .cons ⟨rfl, .string _⟩ (.cons ⟨rfl, .string _⟩ .nil)

theorem Table.spaces_json (depth : Nat) (table : Table) :
    Spaces (table.json layout depth) (table.json compact depth) := by
  have hcolumns := Spaces.array hlayout (l := table.columns)
    (fun column _ => column.spaces_json hlayout (depth + 2)) (depth + 1) (depth + 1)
  have hlines := Spaces.array hlayout (l := table.alterLines)
    (fun line _ => .string line) (depth + 1) (depth + 1)
  rw [json_eq, json_eq]
  refine .object hlayout ?_ depth depth
  exact .cons ⟨rfl, .string _⟩ (.cons ⟨rfl, hcolumns⟩ (.cons ⟨rfl, hlines⟩ .nil))

/-- A schema has the compact text in every layout, once the layout is deleted. -/
theorem Schema.bare_json (schema : Schema) : bare (schema.json layout) = schema.json compact := by
  have htables := Spaces.array hlayout (l := schema.tables)
    (fun table _ => table.spaces_json hlayout 2) 1 1
  have hmembers : List.Forall₂ (fun a b => a.1 = b.1 ∧ Spaces a.2 b.2) (schema.members layout)
      (schema.members compact) := .cons ⟨rfl, htables⟩ .nil
  rw [json_eq, json_eq]
  exact (Spaces.object hlayout hmembers 0 0).bare_eq

/-- The text determines the schema in every layout. -/
theorem Schema.json_inj {one other : Schema} :
    one.json layout = other.json layout ↔ one = other := by
  refine ⟨fun h => Schema.compact_json_injective ?_, fun h => h ▸ rfl⟩
  rw [← one.bare_json hlayout, ← other.bare_json hlayout, h]

end Layouts

/-- **Nothing is lost in JSON.** Each of the two texts determines the schema, and the pretty one is
the compact one with spaces and line breaks outside of literals. -/
theorem Schema.json_lossless (one other : Schema) :
    (one.json compact = other.json compact ↔ one = other)
      ∧ (one.json pretty = other.json pretty ↔ one = other)
      ∧ bare (one.json pretty) = one.json compact :=
  ⟨json_inj blank_compact, json_inj blank_pretty, one.bare_json blank_pretty⟩

/-- Strings that look like JSON, and a table without columns. -/
example :
    bare (Schema.json pretty ⟨[⟨"a\"],  \"".toList, [], ["\x01 \n".toList]⟩]⟩)
      = ("\x7b\"tables\":[\x7b\"name\":\"a\\\"],  \\\"\",\"columns\":[],"
          ++ "\"trailing_alter_lines\":[\"\\u0001 \\n\"]\x7d]\x7d").toList := by
  decide +kernel

end SchemaGrowth
