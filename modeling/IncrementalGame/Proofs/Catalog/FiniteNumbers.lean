import IncrementalGame.Proofs.Catalog.Listed

/-!
# The numbers of a catalog

Most numbers of a catalog were numbers of the document it is loaded from, and so they are finite
(`Item.FiniteFields`).  Two kinds are written in texts: the percentage of a gate, as in `25%`, and
the factor of a multiplier, as in `multiply:gold:2`.  There every text counts that is read as a
number, and so do the words for infinity and for no number, and numerals that are too great.

All numbers of a catalog are finite just if no such text is among those it was loaded from
(`finite_iff_of_load`).
-/

namespace IncrementalGame

open Binary64 (Unbounded)

/-! ## Finite items -/

/-- Whether the numbers of an item that were numbers of a document are finite. -/
structure Item.FiniteFields (item : Item) : Prop where
  initial : item.initial.isFinite = true
  cost : ∀ entry ∈ item.cost.entries, entry.2.isFinite = true
  rewards : ∀ level ∈ item.levels, ∀ entry ∈ level.rewards.entries, entry.2.isFinite = true
  properties : ∀ entry ∈ item.properties.entries, entry.2.Proper

/-- Whether all numbers of an item are finite. -/
structure Item.Finite (item : Item) : Prop extends item.FiniteFields where
  effects : ∀ effect ∈ item.effects, effect.value.isFinite = true
  gate : ∀ percent, item.gate = some (.chance percent) → percent.isFinite = true

/-- Whether all numbers of a catalog are finite. -/
def Catalog.Finite (catalog : Catalog) : Prop :=
  ∀ name key item, (catalog.category name).get? key = some item → item.Finite

namespace Catalog

/-! ## Texts that are read as numbers -/

/-- The text of the factor in a shorthand of a multiplier. -/
def factorText (written : String) : Option (List Char) :=
  match shorthandParts written.toList with
  | (kind, some (_, some part)) =>
    if EffectKind.ofText? kind = some .multiplies then some (Text.trim part) else none
  | _ => none

/-- The text of the factor in an effect. -/
def effectText : Json → Option (List Char)
  | .str written => factorText written
  | _ => none

/-- The text of the percentage of an item. -/
def chanceText (fields : Fields) : Option (List Char) :=
  match get? fields "chance" with
  | some (.str written) => some (Text.trim (dropEnd '%' (Text.trim written.toList)))
  | _ => none

/-- The texts of an item that are read as numbers.  An achievement has no gate. -/
def numberTexts (category : String) (fields : Fields) : List (List Char) :=
  (if category = achievementsCategory then [] else (chanceText fields).toList) ++
    (writtenEffects fields).filterMap effectText

/-! ## Numbers of the document -/

section

variable {fields : Fields} {field : String}

theorem isFinite_of_numberField (proper : (Json.obj fields).Proper) {x : Float}
    (h : numberField fields field = .ok (some x)) : x.isFinite = true := by
  rw [numberField] at h
  split at h
  next => exact absurd h (by simp)
  next => exact absurd h (by simp)
  next n hn =>
    obtain rfl := Option.some_inj.mp (Except.ok.inj h)
    exact proper.isFinite_of_lookup hn
  next => exact absurd h (by simp)

/-- A number that may be absent is finite, since the fallback is. -/
theorem isFinite_getD_of_numberField (proper : (Json.obj fields).Proper) {x : Option Float}
    (h : numberField fields field = .ok x) : (x.getD 0.0).isFinite = true := by
  cases x with
  | none => decide
  | some x => exact isFinite_of_numberField proper h

theorem isFinite_of_initialField (proper : (Json.obj fields).Proper) {x : Float}
    (h : initialField fields = .ok x) : x.isFinite = true := by
  rw [initialField] at h
  obtain ⟨initial, hinitial, h⟩ := Fallible.exists_of_bind_eq_ok h
  simp only at h
  split at h
  next => exact absurd h (by simp)
  next =>
    obtain rfl := Except.ok.inj h
    exact isFinite_getD_of_numberField proper hinitial

theorem isFinite_of_amounts {entries : Fields} (proper : Json.FieldsProper entries)
    {found : List (String × Float)} (h : amounts field entries = .ok found) :
    ∀ entry ∈ found, entry.2.isFinite = true := by
  fun_induction amounts field entries generalizing found with
  | case1 =>
    obtain rfl := Except.ok.inj h
    simp
  | case2 key n rest _ ih =>
    rw [Json.FieldsProper] at proper
    obtain ⟨others, hothers, h⟩ := Fallible.exists_of_bind_eq_ok h
    obtain rfl := Except.ok.inj h
    simpa using ⟨proper.1.number.isFinite_toFloat, fun _ _ => ih proper.2 hothers _⟩
  | case3 => exact absurd h (by simp)
  | case4 => exact absurd h (by simp)

theorem isFinite_of_amountsField (proper : (Json.obj fields).Proper) {found : KeyMap Float}
    (h : amountsField fields field = .ok found) :
    ∀ entry ∈ found.entries, entry.2.isFinite = true := by
  rw [amountsField] at h
  split at h
  next =>
    obtain rfl := Except.ok.inj h
    simp [KeyMap.empty]
  next =>
    obtain rfl := Except.ok.inj h
    simp [KeyMap.empty]
  next entries hentries =>
    obtain ⟨amounts, hamounts, h⟩ := Fallible.exists_of_bind_eq_ok h
    obtain rfl := Except.ok.inj h
    have hproper := proper.of_lookup hentries
    rw [Json.Proper] at hproper
    intro entry hentry
    exact isFinite_of_amounts hproper.2 hamounts entry
      (KeyMap.mem_of_get?_ofList (KeyMap.mem_entries_iff.mp hentry))
  next => exact absurd h (by simp)

end

/-! ## Numbers read from texts -/

/-- The amount of a shorthand is finite unless it is a factor with an unbounded text. -/
theorem isFinite_shorthandAmount_iff {kind : EffectKind} {part : List Char} :
    (shorthandAmount kind (some part)).1.isFinite = true ↔
      (kind = .multiplies → ¬Unbounded (Text.trim part)) := by
  rw [shorthandAmount, Option.map_some, ← Binary64.forall_isFinite_iff]
  split
  next hnone => exact absurd hnone (by simp)
  next hblank =>
    refine iff_of_true (by decide) ?_
    have hnil : Binary64.ofText? [] = none := by decide
    simp [Option.some_inj.mp hblank, hnil]
  next text _ htext =>
    obtain rfl := Option.some_inj.mp htext
    split
    next x hx => simp [hx]
    next hother =>
      have hzero : (0.0 : Float).isFinite = true := by decide
      exact iff_of_true hzero fun hkind x hx => absurd hx (hother x hkind)

theorem isFinite_value_of_fields {fields : Fields} (proper : (Json.obj fields).Proper)
    {found : Effect} (h : effectOfFields fields = .ok found) : found.value.isFinite = true := by
  rw [effectOfFields] at h
  obtain ⟨kind, -, h⟩ := Fallible.exists_of_bind_eq_ok h
  split at h
  next => exact absurd h (by simp)
  next =>
    split at h
    next => exact absurd h (by simp)
    next =>
      obtain ⟨target, -, h⟩ := Fallible.exists_of_bind_eq_ok h
      obtain ⟨value, hvalue, h⟩ := Fallible.exists_of_bind_eq_ok h
      obtain ⟨expression, -, h⟩ := Fallible.exists_of_bind_eq_ok h
      obtain ⟨condition, -, h⟩ := Fallible.exists_of_bind_eq_ok h
      obtain rfl := Except.ok.inj h
      exact isFinite_getD_of_numberField proper hvalue

theorem isFinite_value_of_text_iff {written : String} {found : Effect}
    (h : effectOfText written = .ok found) :
    found.value.isFinite = true ↔ ∀ text ∈ factorText written, ¬Unbounded text := by
  rw [effectOfText] at h
  rw [factorText]
  split at h
  next => exact absurd h (by simp)
  next kind target part hparts =>
    rw [hparts]
    split at h
    next => exact absurd h (by simp)
    next k hkind =>
      have hvalue : found.value = (shorthandAmount k part).1 := by
        obtain rfl := Except.ok.inj h
        rfl
      cases part with
      | none =>
        have hzero : (shorthandAmount k none).1.isFinite = true :=
          show (0.0 : Float).isFinite = true by decide
        simp [hvalue, hzero]
      | some part => simp [hvalue, isFinite_shorthandAmount_iff, hkind]

/-- The value of an effect is finite unless the text of its factor is unbounded. -/
theorem isFinite_value_iff {entry : Json} (proper : entry.Proper) {found : Effect}
    (h : effect entry = .ok found) :
    found.value.isFinite = true ↔ ∀ text ∈ effectText entry, ¬Unbounded text := by
  cases entry with
  | str written => exact isFinite_value_of_text_iff h
  | obj fields => simp [effectText, isFinite_value_of_fields proper h]
  | null | bool | num | arr => exact absurd h (by simp [effect])

/-- The percentage of a gate is finite unless its text is unbounded. -/
theorem isFinite_percent_iff {fields : Fields} (proper : (Json.obj fields).Proper)
    {gate : Option Gate} (h : gateField fields = .ok gate) :
    (∀ percent, gate = some (.chance percent) → percent.isFinite = true) ↔
      ∀ text ∈ chanceText fields, ¬Unbounded text := by
  rw [gateField] at h
  rw [chanceText]
  split at h
  next n hn =>
    obtain rfl := Except.ok.inj h
    simp [hn, proper.isFinite_of_lookup hn]
  next written hwritten =>
    split at h
    next p hp =>
      obtain rfl := Except.ok.inj h
      rw [percentage?] at hp
      simp [hwritten, ← Binary64.forall_isFinite_iff, hp]
    next => exact absurd h (by simp)
  next hnone =>
    obtain ⟨condition, -, h⟩ := Fallible.exists_of_bind_eq_ok h
    obtain rfl := Except.ok.inj h
    simp [hnone]
  next hnull =>
    obtain ⟨condition, -, h⟩ := Fallible.exists_of_bind_eq_ok h
    obtain rfl := Except.ok.inj h
    simp [hnull]
  next => exact absurd h (by simp)

/-! ## Items and catalogs -/

section

variable {category key : String} {fields : Fields} {found : Item}

theorem isFinite_rewards (proper : (Json.obj fields).Proper) (h : found.Reads category key fields) :
    ∀ level ∈ found.levels, ∀ entry ∈ level.rewards.entries, entry.2.isFinite = true := by
  rcases gate_or_levels h with ⟨-, -, hlevels⟩ | ⟨-, hlevels, -⟩
  · refine (forall_mem_iff_of_forall₂ (p := fun _ => True) (forall₂_of_levelsField hlevels)
      fun entry hentry level hlevel => ?_).mpr fun _ _ => trivial
    obtain ⟨fields, rfl, hreads⟩ := hlevel
    have hproper := proper_of_mem_writtenLevels proper hentry
    exact iff_of_true (isFinite_of_amountsField hproper hreads.rewards) trivial
  · simp [hlevels]

theorem finiteFields_of_reads (proper : (Json.obj fields).Proper)
    (h : found.Reads category key fields) : found.FiniteFields where
  initial := isFinite_of_initialField proper h.initial
  cost := isFinite_of_amountsField proper h.cost
  rewards := isFinite_rewards proper h
  properties entry hentry := by
    rw [h.properties] at hentry
    have hfield := KeyMap.mem_of_get?_ofList (KeyMap.mem_entries_iff.mp hentry)
    exact proper.of_mem (List.mem_of_mem_filter hfield)

/-- **The numbers of an item are finite** unless a text is read as another one. -/
theorem finite_iff_of_reads (proper : (Json.obj fields).Proper)
    (h : found.Reads category key fields) :
    found.Finite ↔ ∀ text ∈ numberTexts category fields, ¬Unbounded text := by
  have heffects : (∀ effect ∈ found.effects, effect.value.isFinite = true) ↔
      ∀ text ∈ (writtenEffects fields).filterMap effectText, ¬Unbounded text := by
    rw [List.forall_mem_filterMap]
    exact forall_mem_iff_of_forall₂ (forall₂_of_effectsField h.effects) fun entry hentry e he =>
      isFinite_value_iff (proper_of_mem_writtenEffects proper hentry) he
  have hgate : (∀ percent, found.gate = some (.chance percent) → percent.isFinite = true) ↔
      ∀ text ∈ if category = achievementsCategory then [] else (chanceText fields).toList,
        ¬Unbounded text := by
    rcases gate_or_levels h with ⟨hcategory, hnone, -⟩ | ⟨hcategory, -, hread⟩
    · simp [hcategory, hnone]
    · simpa [hcategory] using isFinite_percent_iff proper hread
  rw [numberTexts, List.forall_mem_append, ← heffects, ← hgate]
  exact ⟨fun finite => ⟨finite.gate, finite.effects⟩,
    fun ⟨gate, effects⟩ => ⟨finiteFields_of_reads proper h, effects, gate⟩⟩

end

/-- **The numbers of a loaded catalog** are finite as far as they were numbers of the document, and
all of them are just if no text among the others is unbounded. -/
theorem finite_iff_of_load {document : Json} {catalog : Catalog} (proper : document.Proper)
    (h : load document = .ok catalog) :
    (∀ name key item, (catalog.category name).get? key = some item → item.FiniteFields) ∧
      (catalog.Finite ↔ ∀ name key fields, Listed document name key fields →
        ∀ text ∈ numberTexts name fields, ¬Unbounded text) := by
  refine ⟨fun name key item hitem => ?_, fun finite name key fields hlisted => ?_,
    fun bounded name key item hitem => ?_⟩
  · obtain ⟨fields, hlisted, hreads⟩ := exists_listed_of_get? proper h hitem
    exact finiteFields_of_reads (hlisted.proper proper) hreads
  · obtain ⟨item, hitem, hreads⟩ := hlisted.exists_get? proper h
    exact (finite_iff_of_reads (hlisted.proper proper) hreads).mp (finite name key item hitem)
  · obtain ⟨fields, hlisted, hreads⟩ := exists_listed_of_get? proper h hitem
    exact (finite_iff_of_reads (hlisted.proper proper) hreads).mpr
      (bounded name key fields hlisted)

/-- A comet that comes with a chance and doubles what there is of gold. -/
def cometDocument (chance : String) : Json := .obj [
  ("shinies", .obj [
    ("comet", .obj [("chance", .str chance), ("effects", .arr [.str "multiply:gold:2"])])])]

/-- With a chance of 25 percent the numbers are finite. -/
theorem finite_of_comet :
    ∃ catalog, load (cometDocument "25%") = .ok catalog ∧ catalog.Finite := by
  have hload : load (cometDocument "25%") =
      .ok (Economy.ofDocument (cometDocument "25%")).catalog :=
    Economy.load_eq_ofDocument (by decide)
  refine ⟨_, hload, (finite_iff_of_load (by decide) hload).2.mpr ?_⟩
  rintro name key fields ⟨root, raw, hroot, hcategory, hitem⟩
  obtain rfl := Json.obj.inj hroot
  obtain ⟨rfl, rfl⟩ : "shinies" = name ∧ _ = raw := by
    simpa [rootOf, get?, KeyMap.lookup] using hcategory
  obtain ⟨rfl, rfl⟩ : "comet" = key ∧ _ = fields := by
    simpa [get?, KeyMap.lookup] using hitem
  have htexts : numberTexts "shinies"
      [("chance", .str "25%"), ("effects", .arr [.str "multiply:gold:2"])] =
      [['2', '5'], ['2']] := by decide
  rw [htexts]
  have hpercent : Binary64.ofText? ['2', '5'] = some 25.0 := by decide +kernel
  have hfactor : Binary64.ofText? ['2'] = some 2.0 := by decide +kernel
  have hfinite : (25.0 : Float).isFinite = true ∧ (2.0 : Float).isFinite = true := by decide
  simp [← Binary64.forall_isFinite_iff, hpercent, hfactor, hfinite]

/-- With a chance of infinitely many percent the catalog is accepted as well. -/
theorem exists_infinite_chance :
    (cometDocument "inf%").Proper ∧
      ∃ catalog, load (cometDocument "inf%") = .ok catalog ∧ ¬catalog.Finite := by
  refine ⟨by decide, _, Economy.load_eq_ofDocument (by decide), fun finite => ?_⟩
  have hgate : (((Economy.ofDocument (cometDocument "inf%")).catalog.category "shinies").get?
      "comet").bind (·.gate) = some (.chance (Binary64.ofPattern false
        Binary64.infinitePattern)) := by decide +kernel
  obtain ⟨item, hitem, hchance⟩ := Option.bind_eq_some_iff.mp hgate
  exact absurd ((finite _ _ _ hitem).gate _ hchance) (by decide)

end Catalog

end IncrementalGame
