import IncrementalGame.Proofs.Catalog.Listed

/-!
# Fields that are null

A field that is null counts as absent.  So it is for every field that is read of an item, of an
effect and of a level, with two exceptions, both about achievements: whether there is a list of
levels, and if there is none whether there is a condition, is asked of the keys and not of the
values (`HingesOnKey`).

* `Alike`: two mappings that differ in nothing but fields that are null.
* `item_withNull`: an item with such a field more is the same item but for its properties, or it is
  refused for the same flaw.  In the two exceptional cases it is refused in any case.
-/

namespace IncrementalGame

/-- An item without the fields that have no place of their own. -/
def Item.typed (item : Item) : Item := { item with properties := .empty }

namespace Catalog

/-! ## Mappings that differ in nulls -/

/-- Whether a field has no value. -/
def Void (fields : Fields) (name : String) : Prop :=
  get? fields name = none ∨ get? fields name = some .null

/-- Whether two mappings have the same value of a field, where null is none. -/
def SameValue (fields fields' : Fields) (name : String) : Prop :=
  get? fields' name = get? fields name ∨ Void fields name ∧ Void fields' name

/-- Whether two mappings have the same values. -/
def Alike (fields fields' : Fields) : Prop := ∀ name, SameValue fields fields' name

/-- A mapping with a field that is null. -/
def withNull (name : String) (fields : Fields) : Fields := KeyMap.place name .null fields

section

variable {fields fields' : Fields} {name : String}

@[simp] theorem get?_place_self (name : String) (value : Json) (fields : Fields) :
    get? (KeyMap.place name value fields) name = some value :=
  KeyMap.lookup_place_self name value fields

theorem get?_place_of_ne {other : String} (h : other ≠ name) (value : Json) (fields : Fields) :
    get? (KeyMap.place name value fields) other = get? fields other :=
  KeyMap.lookup_place_of_ne h value fields

theorem sameValue_place_of_ne {other : String} (h : other ≠ name) (value : Json) :
    SameValue fields (KeyMap.place name value fields) other :=
  .inl (get?_place_of_ne h value fields)

/-- A null where there was no field makes no difference to the values. -/
theorem alike_withNull (absent : get? fields name = none) :
    Alike fields (withNull name fields) := by
  intro other
  by_cases heq : other = name
  · subst heq
    exact .inr ⟨.inl absent, .inr (get?_place_self other .null fields)⟩
  · exact sameValue_place_of_ne heq .null

/-! ## Readers of one field -/

theorem textField_congr (h : SameValue fields fields' name) :
    textField fields' name = textField fields name := by
  rcases h with hsame | ⟨hvoid | hvoid, hvoid' | hvoid'⟩ <;> simp [textField, *]

theorem numberField_congr (h : SameValue fields fields' name) :
    numberField fields' name = numberField fields name := by
  rcases h with hsame | ⟨hvoid | hvoid, hvoid' | hvoid'⟩ <;> simp [numberField, *]

theorem amountsField_congr (h : SameValue fields fields' name) :
    amountsField fields' name = amountsField fields name := by
  rcases h with hsame | ⟨hvoid | hvoid, hvoid' | hvoid'⟩ <;> simp [amountsField, *]

theorem keysField_congr (h : SameValue fields fields' name) :
    keysField fields' name = keysField fields name := by
  rcases h with hsame | ⟨hvoid | hvoid, hvoid' | hvoid'⟩ <;> simp [keysField, *]

theorem effectsField_congr (h : SameValue fields fields' "effects") :
    effectsField fields' = effectsField fields := by
  rcases h with hsame | ⟨hvoid | hvoid, hvoid' | hvoid'⟩ <;> simp [effectsField, *]

theorem initialField_congr (h : SameValue fields fields' "initial") :
    initialField fields' = initialField fields := by
  rw [initialField, initialField, numberField_congr h]

theorem gateField_congr (hchance : SameValue fields fields' "chance")
    (hcondition : SameValue fields fields' "condition") :
    gateField fields' = gateField fields := by
  have hread := textField_congr hcondition
  rcases hchance with hsame | ⟨hvoid | hvoid, hvoid' | hvoid'⟩ <;> simp [gateField, *]

/-! ## Effects and levels -/

theorem effect_congr (h : Alike fields fields') :
    effect (.obj fields') = effect (.obj fields) := by
  simp only [effect, effectOfFields, textField_congr (h _), numberField_congr (h _)]

/-- An effect in a list may be exchanged for one that is read alike. -/
theorem effects_exchange {e e' : Json} (h : effect e' = effect e) (before after : List Json) :
    effects (before ++ e' :: after) = effects (before ++ e :: after) := by
  induction before with
  | nil => simp [effects, h]
  | cons first before ih => simp [effects, ih]

theorem level_congr (hlevel : SameValue fields fields' "level")
    (hcondition : SameValue fields fields' "condition")
    (hrewards : SameValue fields fields' "rewards") (fallback : Nat) :
    level fields' fallback = level fields fallback := by
  simp only [level, levelNumber, numberField_congr hlevel, textField_congr hcondition,
    amountsField_congr hrewards]

/-- A level in a list may be exchanged for one that is read alike. -/
theorem levels_exchange {l l' : Fields} (h : ∀ fallback, level l' fallback = level l fallback)
    (before after : List Json) (index : Nat) :
    levels index (before ++ .obj l' :: after) = levels index (before ++ .obj l :: after) := by
  induction before generalizing index with
  | nil => simp [levels, h]
  | cons first before ih => cases first <;> simp [levels, ih]

/-- Of the levels and of a condition that may stand for them it matters whether there is a key. -/
theorem levelsField_congr (hlevels : get? fields' "levels" = get? fields "levels")
    (hcondition : get? fields "levels" = none →
      (get? fields' "condition").isSome = (get? fields "condition").isSome)
    (hlevel : level fields' 1 = level fields 1) : levelsField fields' = levelsField fields := by
  rw [levelsField, levelsField, hlevels, hlevel]
  cases hfound : get? fields "levels" with
  | none => simp only [hcondition hfound]
  | some found => cases found <;> rfl

end

/-! ## Items -/

section

variable {category key : String} {fields fields' : Fields}

/-- Two sequences are alike after a change if they are from the first step on. -/
theorem map_bind_congr {ε α β γ : Type} {x : Except ε α} {f f' : α → Except ε β} {g : β → γ}
    (h : ∀ a, (f' a).map g = (f a).map g) : (x >>= f').map g = (x >>= f).map g := by
  cases x with
  | error e => rfl
  | ok a => exact h a

/-- Items whose parts are read alike are the same but for their properties. -/
theorem typed_congr
    (hvalues : ∀ name, name ≠ "effects" → name ≠ "levels" → SameValue fields fields' name)
    (heffects : effectsField fields' = effectsField fields)
    (hlevels : levelsAndGate category fields' = levelsAndGate category fields) :
    (item category key (.obj fields')).map Item.typed =
      (item category key (.obj fields)).map Item.typed := by
  have hread : (itemOfFields category key fields').map Item.typed =
      (itemOfFields category key fields).map Item.typed := by
    have htext : ∀ name, name ≠ "effects" → name ≠ "levels" →
        textField fields' name = textField fields name :=
      fun name h h' => textField_congr (hvalues name h h')
    rw [itemOfFields, itemOfFields, heffects, hlevels,
      initialField_congr (hvalues _ (by decide) (by decide)),
      htext "name" (by decide) (by decide), htext "type" (by decide) (by decide),
      htext "description" (by decide) (by decide),
      amountsField_congr (hvalues _ (by decide) (by decide)),
      keysField_congr (hvalues _ (by decide) (by decide))]
    refine map_bind_congr fun initial => map_bind_congr fun effects => ?_
    refine map_bind_congr fun levelsAndGate => map_bind_congr fun name => ?_
    refine map_bind_congr fun tag => map_bind_congr fun description => ?_
    refine map_bind_congr fun cost => map_bind_congr fun requirements => ?_
    rfl
  rw [item, item]
  cases h : itemOfFields category key fields <;> cases h' : itemOfFields category key fields' <;>
    simp_all [Except.map]

/-! ## Nulls in an item -/

/-- Whether it matters for the levels of an item that there is a key: for an achievement without a
list of levels, that of the list or that of the condition. -/
def HingesOnKey (category : String) (fields : Fields) (name : String) : Prop :=
  category = achievementsCategory ∧ get? fields "levels" = none ∧
    (name = "levels" ∨ name = "condition")

/-- A field that is null is added to an effect or to a level of an item, where it was absent. -/
inductive NullWithin (fields : Fields) : Fields → Prop
  | effect {before after : List Json} {e : Fields} {name : String}
      (listed : get? fields "effects" = some (.arr (before ++ .obj e :: after)))
      (absent : get? e name = none) :
      NullWithin fields
        (KeyMap.place "effects" (.arr (before ++ .obj (withNull name e) :: after)) fields)
  | soleEffect {e : Fields} {name : String}
      (listed : get? fields "effects" = some (.obj e)) (absent : get? e name = none) :
      NullWithin fields (KeyMap.place "effects" (.obj (withNull name e)) fields)
  | level {before after : List Json} {l : Fields} {name : String}
      (listed : get? fields "levels" = some (.arr (before ++ .obj l :: after)))
      (absent : get? l name = none) :
      NullWithin fields
        (KeyMap.place "levels" (.arr (before ++ .obj (withNull name l) :: after)) fields)

theorem levelsAndGate_withNull {name : String} (absent : get? fields name = none)
    (hkey : ¬HingesOnKey category fields name) :
    levelsAndGate category (withNull name fields) = levelsAndGate category fields := by
  have halike := alike_withNull absent
  rw [levelsAndGate, levelsAndGate, gateField_congr (halike _) (halike _)]
  by_cases hcategory : category = achievementsCategory
  · have hlevels : name ≠ "levels" :=
      fun heq => hkey ⟨hcategory, heq ▸ absent, .inl heq⟩
    have hcondition : get? fields "levels" = none → name ≠ "condition" :=
      fun hnone heq => hkey ⟨hcategory, hnone, .inr heq⟩
    have hread : levelsField (withNull name fields) = levelsField fields :=
      levelsField_congr (get?_place_of_ne hlevels.symm .null fields)
        (fun hnone => congrArg _ (get?_place_of_ne (hcondition hnone).symm .null fields))
        (level_congr (halike _) (halike _) (halike _) 1)
    rw [hread]
  · rw [if_neg hcategory, if_neg hcategory]

theorem levelsAndGate_place_effects (value : Json) :
    levelsAndGate category (KeyMap.place "effects" value fields) =
      levelsAndGate category fields := by
  have hsame : ∀ name, name ≠ "effects" →
      SameValue fields (KeyMap.place "effects" value fields) name :=
    fun name hname => sameValue_place_of_ne hname value
  rw [levelsAndGate, levelsAndGate,
    gateField_congr (hsame _ (by decide)) (hsame _ (by decide)),
    levelsField_congr (get?_place_of_ne (by decide) value fields)
      (fun _ => congrArg _ (get?_place_of_ne (by decide) value fields))
      (level_congr (hsame _ (by decide)) (hsame _ (by decide)) (hsame _ (by decide)) 1)]

theorem typed_of_nullWithin (h : NullWithin fields fields') :
    (item category key (.obj fields')).map Item.typed =
      (item category key (.obj fields)).map Item.typed := by
  cases h with
  | effect listed absent =>
    refine typed_congr (fun _ hname _ => sameValue_place_of_ne hname _) ?_
      (levelsAndGate_place_effects _)
    rw [effectsField, effectsField, get?_place_self, listed]
    exact effects_exchange (effect_congr (alike_withNull absent)) _ _
  | soleEffect listed absent =>
    refine typed_congr (fun _ hname _ => sameValue_place_of_ne hname _) ?_
      (levelsAndGate_place_effects _)
    rw [effectsField, effectsField, get?_place_self, listed]
    exact effects_exchange (effect_congr (alike_withNull absent)) [] []
  | level listed absent =>
    have halike := alike_withNull absent
    refine typed_congr (fun _ _ hname => sameValue_place_of_ne hname _)
      (effectsField_congr (sameValue_place_of_ne (by decide) _)) ?_
    rw [levelsAndGate, levelsAndGate, gateField_congr (sameValue_place_of_ne (by decide) _)
      (sameValue_place_of_ne (by decide) _), levelsField, levelsField, get?_place_self, listed]
    simp only [levels_exchange fun fallback =>
      level_congr (halike _) (halike _) (halike _) fallback]

theorem refused_of_hingesOnKey {name : String} (hkey : HingesOnKey category fields name) :
    ∃ refusal, item category key (.obj (withNull name fields)) = .error refusal := by
  obtain ⟨hcategory, hlevels, hname⟩ := hkey
  cases hitem : item category key (.obj (withNull name fields)) with
  | error refusal => exact ⟨refusal, rfl⟩
  | ok found =>
    obtain ⟨_, hfields, hread⟩ := item_eq_ok_iff.mp hitem
    obtain rfl := Json.obj.inj hfields
    rcases gate_or_levels (reads_of_itemOfFields hread) with ⟨-, -, hread⟩ | ⟨hother, -⟩
    · exfalso
      rcases hname with rfl | rfl
      · simp [levelsField, withNull] at hread
      · -- the condition is asked for, since its key is there
        have hsame := get?_place_of_ne (show "levels" ≠ "condition" by decide) .null fields
        rw [levelsField, withNull, hsame, hlevels] at hread
        simp only [get?_place_self, Option.isSome_some, if_true] at hread
        obtain ⟨first, hfirst, -⟩ := Fallible.exists_of_bind_eq_ok hread
        have hcondition := (reads_of_level hfirst).condition
        simp [textField] at hcondition
    · exact absurd hcategory hother

/-- **A field that is null** counts as absent, but for the two fields of an achievement of which the
keys are asked for. -/
theorem item_withNull (category key : String) (fields : Fields) :
    (∀ name, get? fields name = none → ¬HingesOnKey category fields name →
      (item category key (.obj (withNull name fields))).map Item.typed =
        (item category key (.obj fields)).map Item.typed) ∧
    (∀ name, HingesOnKey category fields name →
      ∃ refusal, item category key (.obj (withNull name fields)) = .error refusal) ∧
    ∀ fields', NullWithin fields fields' →
      (item category key (.obj fields')).map Item.typed =
        (item category key (.obj fields)).map Item.typed := by
  refine ⟨fun name absent hkey => ?_, fun name => refused_of_hingesOnKey,
    fun _ => typed_of_nullWithin⟩
  have halike := alike_withNull absent
  exact typed_congr (fun name _ _ => halike name) (effectsField_congr (halike _))
    (levelsAndGate_withNull absent hkey)

end

/-- An effect that yields gold. -/
def goldYield : Fields := [("target", .str "gold"), ("type", .str "yield")]

/-- A mine with an effect. -/
def mineFields (e : Fields) : Fields := [("effects", .arr [.obj e])]

/-- A mine whose cost is null is the mine without a cost, and so it is if the value of its effect is
null. -/
theorem item_withNull_of_mine :
    (item "buildings" "mine" (.obj (withNull "cost" (mineFields goldYield)))).map Item.typed =
        (item "buildings" "mine" (.obj (mineFields goldYield))).map Item.typed ∧
      (item "buildings" "mine" (.obj (mineFields (withNull "value" goldYield)))).map Item.typed =
        (item "buildings" "mine" (.obj (mineFields goldYield))).map Item.typed ∧
      (item "buildings" "mine" (.obj (mineFields goldYield))).toOption.isSome = true := by
  obtain ⟨hitem, -, hwithin⟩ := item_withNull "buildings" "mine" (mineFields goldYield)
  have heffect : NullWithin (mineFields goldYield)
      (KeyMap.place "effects" (.arr ([] ++ .obj (withNull "value" goldYield) :: []))
        (mineFields goldYield)) := .effect rfl rfl
  exact ⟨hitem "cost" rfl fun hkey => absurd hkey.1 (by decide), hwithin _ heffect, by decide⟩

/-- An achievement without levels is accepted, and refused as soon as its levels or its condition
are null. -/
theorem exists_refused_null :
    (item achievementsCategory "rich" (.obj [])).toOption.isSome = true ∧
      (item achievementsCategory "rich" (.obj (withNull "levels" []))).toOption.isSome = false ∧
      (item achievementsCategory "rich" (.obj (withNull "condition" []))).toOption.isSome =
        false := by
  decide

end Catalog

end IncrementalGame
