import SchemaGrowth.Migration.Change
import SchemaGrowth.Proofs.Enumeration.ReadBack
import SchemaGrowth.Proofs.FirstSeen

/-!
# Enumerations grow

One migration takes an enumeration to another definition by a merge, and many migrations take it
through a run of stages. `exists_growth` says that no stage fails and that the values only ever
grow: those of a stage are all the values wanted so far, in the order in which they were first
wanted.
-/

namespace SchemaGrowth

namespace Enumeration

/-- The values of a definition, none if it cannot be read. -/
def valuesOf (definition : Text) : List Text :=
  (ofDefinition? definition).elim [] values

theorem valuesOf_of_ofDefinition? {definition : Text} {enumeration : Enumeration}
    (h : ofDefinition? definition = some enumeration) : valuesOf definition = enumeration.values := by
  rw [valuesOf, h, Option.elim_some]

end Enumeration

open Enumeration

namespace Change

/-! ## Stages -/

/-- The definition of an enumeration after a migration to another one. -/
def grow (table column old new : Text) : Except MigrationError Text := do
  match ← mergeEnums table column old new with
  | none => return old
  | some merged => return merged.definition

/-- The definitions of an enumeration before, between and after some migrations. -/
def stages (table column first : Text) : List Text → Except MigrationError (List Text)
  | [] => return [first]
  | wanted :: rest => do
    let next ← grow table column first wanted
    let later ← stages table column next rest
    return first :: later

/-- One migration: it does not fail, the next definition can be read, it has the values of both
sides, and it needs no second migration. -/
theorem grow_ok {old new : Text} {oldEnum newEnum : Enumeration}
    (ho : ofDefinition? old = some oldEnum) (hn : ofDefinition? new = some newEnum)
    (table column : Text) :
    ∃ next nextEnum, grow table column old new = .ok next ∧ ofDefinition? next = some nextEnum
      ∧ nextEnum.values.eraseDups = (oldEnum.values ++ newEnum.values).eraseDups
      ∧ nextEnum.merge? newEnum = none := by
  have hm := mergeEnums_ok ho hn table column
  cases hg : oldEnum.merge? newEnum with
  | none =>
    rw [hg] at hm
    refine ⟨old, oldEnum, ?_, ho, ?_, hg⟩
    · simp [grow, hm, bind, Except.bind, pure, Except.pure]
    · exact (eraseDups_append_of_subset (merge?_eq_none.mp hg).1).symm
  | some merged =>
    rw [hg] at hm
    refine ⟨merged.definition, merged, ?_, ?_, ?_, merge?_merged hg⟩
    · simp [grow, hm, bind, Except.bind, pure, Except.pure]
    · exact ofDefinition?_definition
        ((writable_of_ofDefinition? ho).merge? (writable_of_ofDefinition? hn) hg)
    · rw [eq_of_merge? hg]
      exact eraseDups_of_nodup (nodup_eraseDups _)

/-- A run of migrations has one stage more than migrations, and each follows from the one before. -/
structure Run (table column first : Text) (wanted stages : List Text) : Prop where
  length : stages.length = wanted.length + 1
  first : stages[0]? = some first
  step : ∀ {i : Nat} {old new : Text}, stages[i]? = some old → wanted[i]? = some new →
    ∃ next, stages[i + 1]? = some next ∧ grow table column old new = .ok next

theorem exists_run {first : Text} {wanted : List Text} (hf : (ofDefinition? first).isSome)
    (hw : ∀ new ∈ wanted, (ofDefinition? new).isSome) (table column : Text) :
    ∃ run, stages table column first wanted = .ok run ∧ Run table column first wanted run := by
  induction wanted generalizing first with
  | nil => exact ⟨[first], rfl, rfl, rfl, fun _ h => absurd h (by simp)⟩
  | cons new rest ih =>
    obtain ⟨firstEnum, ho⟩ := Option.isSome_iff_exists.mp hf
    obtain ⟨newEnum, hn⟩ := Option.isSome_iff_exists.mp (hw new (by simp))
    obtain ⟨next, nextEnum, hg, hnext, -⟩ := grow_ok ho hn table column
    have hsome : (ofDefinition? next).isSome := by
      simp [hnext]
    obtain ⟨later, hl, hr⟩ := ih hsome fun new hm => hw new (List.mem_cons_of_mem _ hm)
    refine ⟨first :: later, ?_, ?_, rfl, ?_⟩
    · simp [stages, hg, hl, bind, Except.bind, pure, Except.pure]
    · simp [hr.length]
    · intro i old wish hold hwish
      cases i with
      | zero =>
        obtain rfl : first = old := by simpa using hold
        obtain rfl : new = wish := by simpa using hwish
        exact ⟨next, hr.first, hg⟩
      | succ i => exact hr.step hold hwish

/-- What one migration of a run does. -/
theorem Run.next {table column first : Text} {wanted stages : List Text}
    (h : Run table column first wanted stages) {i : Nat} {old new : Text}
    {oldEnum newEnum : Enumeration} (ho : stages[i]? = some old) (hn : wanted[i]? = some new)
    (hold : ofDefinition? old = some oldEnum) (hnew : ofDefinition? new = some newEnum) :
    ∃ next nextEnum, stages[i + 1]? = some next ∧ ofDefinition? next = some nextEnum
      ∧ nextEnum.values.eraseDups = (oldEnum.values ++ newEnum.values).eraseDups
      ∧ nextEnum.merge? newEnum = none := by
  obtain ⟨next, nextEnum, hg, hnext, hunion, hnone⟩ := grow_ok hold hnew table column
  obtain ⟨later, hl, hg'⟩ := h.step ho hn
  obtain rfl : next = later := by simpa [hg] using hg'
  exact ⟨next, nextEnum, hl, hnext, hunion, hnone⟩

/-- What holds of all stages of a run: the values of each are the values wanted so far, and the last
wish is fulfilled. -/
theorem Run.stage {table column first : Text} {wanted stages : List Text}
    (h : Run table column first wanted stages) (hf : (ofDefinition? first).isSome)
    (hw : ∀ new ∈ wanted, (ofDefinition? new).isSome) {i : Nat} {stage : Text}
    (hs : stages[i]? = some stage) :
    ∃ enumeration, ofDefinition? stage = some enumeration
      ∧ enumeration.values.eraseDups = ((first :: wanted.take i).flatMap valuesOf).eraseDups := by
  induction i generalizing stage with
  | zero =>
    obtain rfl : first = stage := by simpa [h.first] using hs
    obtain ⟨enumeration, he⟩ := Option.isSome_iff_exists.mp hf
    exact ⟨enumeration, he, by simp [valuesOf_of_ofDefinition? he]⟩
  | succ i ih =>
    have hi : i < wanted.length := by
      have := (List.getElem?_eq_some_iff.mp hs).1
      rw [h.length] at this
      omega
    have hn : wanted[i]? = some wanted[i] := List.getElem?_eq_getElem hi
    have hstage : i < stages.length := by
      rw [h.length]
      omega
    have ho : stages[i]? = some stages[i] := List.getElem?_eq_getElem hstage
    obtain ⟨oldEnum, hold, hvalues⟩ := ih ho
    obtain ⟨newEnum, hnew⟩ := Option.isSome_iff_exists.mp (hw _ (List.getElem_mem hi))
    obtain ⟨next, nextEnum, hl, hnext, hunion, -⟩ := h.next ho hn hold hnew
    obtain rfl : next = stage := by simpa [hl] using hs
    refine ⟨nextEnum, hnext, ?_⟩
    have htake : wanted.take (i + 1) = wanted.take i ++ [wanted[i]] := by
      rw [List.take_add_one, hn]
      rfl
    have hflat : (first :: wanted.take (i + 1)).flatMap valuesOf
        = (first :: wanted.take i).flatMap valuesOf ++ newEnum.values := by
      rw [htake, ← List.cons_append, List.flatMap_append, List.flatMap_singleton,
        valuesOf_of_ofDefinition? hnew]
    rw [hunion, ← eraseDups_eraseDups_append, hvalues, eraseDups_eraseDups_append, hflat]

section Run

variable {table column first : Text} {wanted stages : List Text}

/-- Where there is nothing to merge, the definition stays. -/
theorem Run.kept (h : Run table column first wanted stages) {i : Nat} {old new : Text}
    (ho : stages[i]? = some old) (hn : wanted[i]? = some new)
    (hm : mergeEnums table column old new = .ok none) : stages[i + 1]? = some old := by
  obtain ⟨next, hnext, hg⟩ := h.step ho hn
  obtain rfl : old = next := by
    simpa [grow, hm, bind, Except.bind, pure, Except.pure] using hg
  exact hnext

variable (hf : (ofDefinition? first).isSome) (hw : ∀ new ∈ wanted, (ofDefinition? new).isSome)
include hf hw

/-- A merge is written out, is read back as it is, and has no value twice. -/
theorem Run.merged (h : Run table column first wanted stages) {i : Nat} {old new : Text}
    {merged : Enumeration} (ho : stages[i]? = some old) (hn : wanted[i]? = some new)
    (hm : mergeEnums table column old new = .ok (some merged)) :
    stages[i + 1]? = some merged.definition
      ∧ ofDefinition? merged.definition = some merged ∧ merged.values.Nodup := by
  obtain ⟨oldEnum, hold, -⟩ := h.stage hf hw ho
  obtain ⟨newEnum, hnew⟩ := Option.isSome_iff_exists.mp (hw new (List.mem_of_getElem? hn))
  have hmerge : oldEnum.merge? newEnum = some merged := by
    simpa [mergeEnums_ok hold hnew] using hm
  obtain ⟨next, hnext, hg⟩ := h.step ho hn
  obtain rfl : merged.definition = next := by
    simpa [grow, hm, bind, Except.bind, pure, Except.pure] using hg
  refine ⟨hnext, ?_, ?_⟩
  · exact ofDefinition?_definition
      ((writable_of_ofDefinition? hold).merge? (writable_of_ofDefinition? hnew) hmerge)
  · rw [eq_of_merge? hmerge]
    exact nodup_eraseDups _

/-- A stage has the values wanted so far, in the order in which they were first wanted. -/
theorem Run.values (h : Run table column first wanted stages) {i : Nat} {stage : Text}
    (hs : stages[i]? = some stage) :
    (valuesOf stage).eraseDups = ((first :: wanted.take i).flatMap valuesOf).eraseDups := by
  obtain ⟨enumeration, he, hv⟩ := h.stage hf hw hs
  rw [valuesOf_of_ofDefinition? he, hv]

/-- No value is lost or moved. -/
theorem Run.ordered (h : Run table column first wanted stages) {i j : Nat} {earlier later : Text}
    (hij : i < j) (he : stages[i]? = some earlier) (hl : stages[j]? = some later) :
    (valuesOf earlier).eraseDups <+: (valuesOf later).eraseDups := by
  have htake : wanted.take j = wanted.take i ++ (wanted.take j).drop i := by
    have hsplit := List.take_append_drop i (wanted.take j)
    rw [List.take_take, Nat.min_eq_left (by omega)] at hsplit
    exact hsplit.symm
  rw [h.values hf hw he, h.values hf hw hl, htake, ← List.cons_append, List.flatMap_append]
  exact eraseDups_prefix_append _ _

/-- Nothing is left to merge of what was wanted last. -/
theorem Run.settled (h : Run table column first wanted stages) {i : Nat} {new stage : Text}
    (hn : wanted[i]? = some new) (hs : stages[i + 1]? = some stage) :
    mergeEnums table column stage new = .ok none := by
  have hi : i < wanted.length := (List.getElem?_eq_some_iff.mp hn).1
  have hstage : i < stages.length := by
    rw [h.length]
    omega
  have ho : stages[i]? = some stages[i] := List.getElem?_eq_getElem hstage
  obtain ⟨oldEnum, hold, -⟩ := h.stage hf hw ho
  obtain ⟨newEnum, hnew⟩ := Option.isSome_iff_exists.mp (hw new (List.mem_of_getElem? hn))
  obtain ⟨next, nextEnum, hl, hnext, -, hnone⟩ := h.next ho hn hold hnew
  obtain rfl : next = stage := by simpa [hl] using hs
  rw [mergeEnums_ok hnext hnew, hnone]

end Run

/-- What a run of migrations to the wanted definitions does to an enumeration. -/
structure Growth (table column first : Text) (wanted stages : List Text) : Prop where
  /-- There is one stage more than there are migrations, and it is the first definition. -/
  started : stages.length = wanted.length + 1 ∧ stages[0]? = some first
  /-- Every stage can be read. -/
  readable : ∀ stage ∈ stages, (ofDefinition? stage).isSome
  /-- Where there is nothing to merge, the definition stays. -/
  kept : ∀ {i : Nat} {old new : Text}, stages[i]? = some old → wanted[i]? = some new →
    mergeEnums table column old new = .ok none → stages[i + 1]? = some old
  /-- A merge is written out, is read back as it is, and has no value twice. -/
  merged : ∀ {i : Nat} {old new : Text} {merged : Enumeration}, stages[i]? = some old →
    wanted[i]? = some new → mergeEnums table column old new = .ok (some merged) →
      stages[i + 1]? = some merged.definition
      ∧ ofDefinition? merged.definition = some merged ∧ merged.values.Nodup
  /-- A stage has the values wanted so far, in the order in which they were first wanted. -/
  values : ∀ {i : Nat} {stage : Text}, stages[i]? = some stage →
    (valuesOf stage).eraseDups = ((first :: wanted.take i).flatMap valuesOf).eraseDups
  /-- No value is lost or moved. -/
  ordered : ∀ {i j : Nat} {earlier later : Text}, i < j → stages[i]? = some earlier →
    stages[j]? = some later →
    (valuesOf earlier).eraseDups <+: (valuesOf later).eraseDups
  /-- Nothing is left to merge of what was wanted last. -/
  settled : ∀ {i : Nat} {new stage : Text}, wanted[i]? = some new → stages[i + 1]? = some stage →
    mergeEnums table column stage new = .ok none

/-- **The values of an enumeration only ever grow**, and no migration on the way fails. -/
theorem exists_growth {first : Text} {wanted : List Text} (hf : (ofDefinition? first).isSome)
    (hw : ∀ new ∈ wanted, (ofDefinition? new).isSome) (table column : Text) :
    ∃ run, stages table column first wanted = .ok run ∧ Growth table column first wanted run := by
  obtain ⟨run, hok, hrun⟩ := exists_run hf hw table column
  refine ⟨run, hok, ⟨hrun.length, hrun.first⟩, ?_, hrun.kept, hrun.merged hf hw,
    hrun.values hf hw, hrun.ordered hf hw, hrun.settled hf hw⟩
  intro stage hm
  obtain ⟨i, hi⟩ := List.mem_iff_getElem?.mp hm
  obtain ⟨enumeration, he, -⟩ := hrun.stage hf hw hi
  simp [he]

/-- A run with repeated, missing and empty values, an open quote and a change of modifiers. -/
theorem exists_growth_letters :
    (ofDefinition? "enum('b','a','b')".toList).isSome
    ∧ (∀ new ∈ ["enum('c','','b) NULL".toList, "ENUM('a')  null".toList, "e() DEFAULT 'a'".toList],
        (ofDefinition? new).isSome)
    ∧ ∃ run, stages "t".toList "c".toList "enum('b','a','b')".toList
          ["enum('c','','b) NULL".toList, "ENUM('a')  null".toList, "e() DEFAULT 'a'".toList]
        = .ok run
      ∧ Growth "t".toList "c".toList "enum('b','a','b')".toList
          ["enum('c','','b) NULL".toList, "ENUM('a')  null".toList, "e() DEFAULT 'a'".toList] run :=
  ⟨by decide +kernel, by decide +kernel,
    exists_growth (by decide +kernel) (by decide +kernel) _ _⟩

end Change

end SchemaGrowth
