import IncrementalGame.Player.Snapshot
import IncrementalGame.Proofs.Json.Reals
import IncrementalGame.Proofs.Json.Written
import IncrementalGame.Proofs.KeyMap

/-!
# Snapshots are read back

A player is written as an object of twelve fields, and each of them is read back by itself: counts,
texts, truth values and records always, and numbers that are no counts if they are finite and the
literal that they are written as denotes them (`Exact`).  That it does is asked of the numbers of
the player only (`KeepsFinite`), since reading a JSON number may end at a neighbour of it.

* `exists_of_decode_encode` --- what is read is the player but for such numbers;
* `decode_encode` --- a player whose numbers are finite is read back;
* `decode_encode_eq_none` --- a player with a number that is not finite is not read at all.
-/

namespace IncrementalGame

/-- The numbers of a player that are not counts: carried fractions, multipliers and rates. -/
def Player.reals (p : Player) : List Float :=
  p.carry.entries.map (·.2) ++ p.multipliers.entries.map (·.2) ++
    p.stats.entries.map (·.2.perTick)

namespace Snapshot

open Document Json

/-! ## Numbers -/

/-- Whether the text of a number is one literal, and the literal denotes the number. -/
def Exact (x : Float) : Prop :=
  ∃ literal, readNumber (Number.real x).render.toList = some (literal, []) ∧
    literal.toFloat? = some x

instance (x : Float) : Decidable (Exact x) :=
  match hread : readNumber (Number.real x).render.toList with
  | some (literal, []) =>
    decidable_of_iff (literal.toFloat? = some x)
      ⟨fun hvalue => ⟨literal, hread, hvalue⟩, fun ⟨other, hother, hvalue⟩ => by
        rw [hread] at hother
        cases hother
        exact hvalue⟩
  | some (_, _ :: _) => .isFalse fun ⟨_, hother, _⟩ => absurd (hread.symm.trans hother) (by simp)
  | none => .isFalse fun ⟨_, hother, _⟩ => absurd (hread.symm.trans hother) (by simp)

theorem Exact.decodeReal {x : Float} (h : Exact x) :
    decodeReal (encodeReal x).document = some x := by
  obtain ⟨literal, hread, hvalue⟩ := h
  rw [encodeReal, document, Number.document, hread]
  exact hvalue

/-- What is not finite is written as null. -/
theorem render_of_not_finite {x : Float} (h : ¬ x.isFinite = true) :
    (Number.real x).render = "null" := by
  rw [Number.render, if_neg h]

theorem legible_encodeReal (x : Float) : (encodeReal x).Legible := by
  rw [encodeReal, Legible]
  by_cases h : x.isFinite = true
  · exact .inr (Number.exists_readNumber_render h)
  · exact .inl (render_of_not_finite h)

theorem decodeReal_of_not_finite {x : Float} (h : ¬ x.isFinite = true) :
    decodeReal (encodeReal x).document = none := by
  rw [encodeReal, document, Number.document, render_of_not_finite h]
  rfl

/-- A number is read back exactly if its text denotes it. -/
theorem exact_iff {x : Float} : Exact x ↔ decodeReal (encodeReal x).document = some x := by
  refine ⟨Exact.decodeReal, fun h => ?_⟩
  by_cases hfinite : x.isFinite = true
  · obtain ⟨literal, hread⟩ := Number.exists_readNumber_render hfinite
    rw [encodeReal, document, Number.document, hread] at h
    exact ⟨literal, hread, h⟩
  · rw [decodeReal_of_not_finite hfinite] at h
    exact absurd h (by simp)

theorem render_natural (n : Nat) : (Number.int n).render.toList = digitsOf n := by
  unfold Number.render
  show (Nat.repr n).toList = _
  rw [Nat.repr, String.toList_ofList, digitsOf]

theorem legible_encodeNat (n : Nat) : (encodeNat n).Legible := by
  rw [encodeNat, Legible, Number.Legible, render_natural]
  exact .inr ⟨natural n, readNumber_digitsOf n⟩

theorem decodeNat_encodeNat {n bound : Nat} (h : n < bound) (hbound : bound ≤ UInt64.size) :
    decodeNat bound (encodeNat n).document = some n := by
  rw [encodeNat, document, Number.document, render_natural, readNumber_digitsOf]
  simp only [decodeNat, toInt?_natural (lt_of_lt_of_le h hbound)]
  rw [if_pos ⟨Int.natCast_nonneg n, h⟩]
  rfl

theorem decode64_encodeNat (n : UInt64) : decode64 (encodeNat n.toNat).document = some n := by
  rw [decode64, decodeNat_encodeNat n.toNat_lt (le_refl _), Option.map_some, UInt64.ofNat_toNat]

theorem decode32_encodeNat (n : UInt32) : decode32 (encodeNat n.toNat).document = some n := by
  rw [decode32, decodeNat_encodeNat n.toNat_lt (by decide), Option.map_some, UInt32.ofNat_toNat]

/-! ## Tables and lists -/

section

variable {α : Type} {encode : α → Json} {decode : Document → Option α}

theorem fieldsLegible_map {l : List (String × α)} (h : ∀ e ∈ l, (encode e.2).Legible) :
    FieldsLegible (l.map fun e => (e.1, encode e.2)) := by
  induction l with
  | nil =>
    rw [List.map_nil, FieldsLegible]
    trivial
  | cons e rest ih =>
    rw [List.map_cons, FieldsLegible]
    exact ⟨h e List.mem_cons_self, ih fun other hother => h other (List.mem_cons_of_mem e hother)⟩

theorem itemsLegible_map {l : List α} (h : ∀ a ∈ l, (encode a).Legible) :
    ItemsLegible (l.map encode) := by
  induction l with
  | nil =>
    rw [List.map_nil, ItemsLegible]
    trivial
  | cons a rest ih =>
    rw [List.map_cons, ItemsLegible]
    exact ⟨h a List.mem_cons_self, ih fun other hother => h other (List.mem_cons_of_mem a hother)⟩

theorem legible_encodeMap {t : KeyMap α} (h : ∀ e ∈ t.entries, (encode e.2).Legible) :
    (encodeMap encode t).Legible := by
  rw [encodeMap, Legible]
  exact fieldsLegible_map h

theorem decodeEntries_cons (key : String) (value : Document)
    (rest : List (Option String × Document)) :
    decodeEntries decode ((some key, value) :: rest) =
      (decode value).bind fun a => (decodeEntries decode rest).map fun l => (key, a) :: l := by
  cases hvalue : decode value with
  | none => simp [decodeEntries, hvalue]
  | some a => cases hrest : decodeEntries decode rest <;> simp [decodeEntries, hvalue, hrest]

theorem decodeEntries_map {l : List (String × α)}
    (h : ∀ e ∈ l, decode (encode e.2).document = some e.2) :
    decodeEntries decode (fieldDocuments (l.map fun e => (e.1, encode e.2))) = some l := by
  induction l with
  | nil => rw [List.map_nil, fieldDocuments, decodeEntries]
  | cons e rest ih =>
    have hrest := ih fun other hother => h other (List.mem_cons_of_mem e hother)
    rw [List.map_cons, fieldDocuments, decodeEntries_cons, h e List.mem_cons_self, hrest]
    rfl

/-- A table is read back if each of its values is. -/
theorem decodeMap_encodeMap {t : KeyMap α}
    (h : ∀ e ∈ t.entries, decode (encode e.2).document = some e.2) :
    decodeMap decode (encodeMap encode t).document = some t := by
  rw [encodeMap, document, decodeMap, decodeEntries_map h, Option.map_some, KeyMap.ofList_entries]

theorem decodeEntries_eq_none {l : List (String × α)} {e : String × α} (he : e ∈ l)
    (h : decode (encode e.2).document = none) :
    decodeEntries decode (fieldDocuments (l.map fun e => (e.1, encode e.2))) = none := by
  induction l with
  | nil => exact absurd he List.not_mem_nil
  | cons first rest ih =>
    rw [List.map_cons, fieldDocuments, decodeEntries_cons]
    rcases List.mem_cons.mp he with rfl | he
    · rw [h]
      rfl
    · rw [ih he]
      cases decode (encode first.2).document <;> rfl

/-- One value that is not read back is enough for a table not to be read. -/
theorem decodeMap_eq_none {t : KeyMap α} {e : String × α} (he : e ∈ t.entries)
    (h : decode (encode e.2).document = none) :
    decodeMap decode (encodeMap encode t).document = none := by
  rw [encodeMap, document, decodeMap, decodeEntries_eq_none he h, Option.map_none]

/-- What is read of a table has its keys, and the values that are read of its values. -/
theorem forall₂_of_decodeEntries {l l' : List (String × α)}
    (h : decodeEntries decode (fieldDocuments (l.map fun e => (e.1, encode e.2))) = some l') :
    List.Forall₂ (fun e e' => e'.1 = e.1 ∧ decode (encode e.2).document = some e'.2) l l' := by
  induction l generalizing l' with
  | nil =>
    rw [List.map_nil, fieldDocuments, decodeEntries] at h
    rw [← Option.some_inj.mp h]
    exact .nil
  | cons e rest ih =>
    rw [List.map_cons, fieldDocuments, decodeEntries_cons] at h
    obtain ⟨a, ha, h⟩ := Option.bind_eq_some_iff.mp h
    obtain ⟨others, hothers, rfl⟩ := Option.map_eq_some_iff.mp h
    exact .cons ⟨rfl, ha⟩ (ih hothers)

/-- A table that is read back has values that are. -/
theorem decode_of_decodeMap_encodeMap {t : KeyMap α}
    (h : decodeMap decode (encodeMap encode t).document = some t) :
    ∀ e ∈ t.entries, decode (encode e.2).document = some e.2 := by
  rw [encodeMap, document, decodeMap] at h
  obtain ⟨l, hl, hlist⟩ := Option.map_eq_some_iff.mp h
  have hread := forall₂_of_decodeEntries hl
  have hkeys : t.entries.map (·.1) = l.map (·.1) := by
    rw [← List.forall₂_eq_eq_eq, List.forall₂_map_left_iff, List.forall₂_map_right_iff]
    exact hread.imp fun _ _ h => h.1.symm
  have hascending : l.Pairwise fun a b => a.1 < b.1 := by
    have hpairs := List.pairwise_map.mpr t.ascending
    rw [hkeys] at hpairs
    exact List.pairwise_map.mp hpairs
  have hentries : t.entries = l := by
    rw [← hlist]
    exact congrArg KeyMap.entries (KeyMap.ofList_entries ⟨l, hascending⟩)
  rw [← hentries] at hread
  exact fun e he => (List.forall₂_same.mp hread e he).2

theorem mapM_itemDocuments {l : List α} (h : ∀ a ∈ l, decode (encode a).document = some a) :
    (itemDocuments (l.map encode)).mapM decode = some l := by
  induction l with
  | nil =>
    rw [List.map_nil, itemDocuments]
    rfl
  | cons a rest ih =>
    have hrest := ih fun other hother => h other (List.mem_cons_of_mem a hother)
    rw [List.map_cons, itemDocuments, List.mapM_cons, h a List.mem_cons_self, hrest]
    rfl

end

/-! ## Fields -/

/-- The one field of a key. -/
theorem filter_key {α : Type} {l : List (String × α)} (hl : (l.map (·.1)).Nodup) {e : String × α}
    (he : e ∈ l) : l.filter (fun f => f.1 == e.1) = [e] := by
  induction l with
  | nil => exact absurd he List.not_mem_nil
  | cons first rest ih =>
    rw [List.map_cons, List.nodup_cons] at hl
    rcases List.mem_cons.mp he with rfl | he
    · have hnone : rest.filter (fun f => f.1 == e.1) = [] := by
        refine List.filter_eq_nil_iff.mpr fun f hf heq => hl.1 ?_
        rw [← beq_iff_eq.mp heq]
        exact List.mem_map_of_mem hf
      rw [List.filter_cons, if_pos (beq_self_eq_true e.1), hnone]
    · have hne : ¬ (first.1 == e.1) = true := fun heq => hl.1 (by
        rw [beq_iff_eq.mp heq]
        exact List.mem_map_of_mem he)
      rw [List.filter_cons, if_neg hne, ih hl.2 he]

/-- An object that has each of some fields once, in their order, gives their values. -/
theorem fieldsOf_object {l : List (String × Document)} (hl : (l.map (·.1)).Nodup) :
    fieldsOf (l.map (·.1)) (.object (l.map fun f => (some f.1, f.2))) =
      some (l.map fun f => some f.2) := by
  have hkeys : ¬ ((l.map fun f => ((some f.1 : Option String), f.2)).any
      fun f => f.1.isNone) = true := by
    simp
  have hnamed : (l.map fun f => ((some f.1 : Option String), f.2)).filterMap
      (fun f => f.1.map fun key => (key, f.2)) = l := by
    rw [List.filterMap_map]
    exact List.filterMap_some
  have hfound : (l.map (·.1)).map (fun name => l.filter (fun f => f.1 == name)) =
      l.map fun f => [f] := by
    rw [List.map_map]
    exact List.map_congr_left fun f hf => filter_key hl hf
  have honce : ¬ ((l.map fun f => [f]).any fun found => decide (1 < found.length)) = true := by
    simp
  rw [fieldsOf, if_neg hkeys]
  simp only [hnamed, hfound]
  rw [if_neg honce, List.map_map]
  rfl

/-! ## Records -/

theorem legible_encodeShiny (s : ShinyState) : (encodeShiny s).Legible := by
  simp only [encodeShiny, Legible, FieldsLegible, true_and, and_true]
  exact legible_encodeNat _

theorem decodeShiny_encodeShiny (s : ShinyState) :
    decodeShiny (encodeShiny s).document = some s := by
  have hfields : fieldsOf ["active", "last_spawn_ms"] (encodeShiny s).document =
      some [some (.bool s.active), some (encodeNat s.lastSpawn.toNat).document] := by
    simp only [encodeShiny, document, fieldDocuments]
    exact fieldsOf_object (l := [("active", .bool s.active),
      ("last_spawn_ms", (encodeNat s.lastSpawn.toNat).document)])
      (show ["active", "last_spawn_ms"].Nodup by decide)
  rw [decodeShiny, hfields]
  simp only [required, Option.bind_some, decodeBool, decode64_encodeNat]
  rfl

theorem legible_encodeStats (s : ResourceStats) : (encodeStats s).Legible := by
  simp only [encodeStats, Legible, FieldsLegible, and_true]
  exact ⟨legible_encodeNat _, legible_encodeNat _, legible_encodeReal _⟩

/-- The counts of the statistics are read back; the rate may not be. -/
theorem decodeStats_encodeStats (s : ResourceStats) :
    decodeStats (encodeStats s).document =
      (decodeReal (encodeReal s.perTick).document).map fun rate => { s with perTick := rate } := by
  have hfields : fieldsOf ["max", "earned", "per_tick"] (encodeStats s).document =
      some [some (encodeNat s.max.toNat).document, some (encodeNat s.earned.toNat).document,
        some (encodeReal s.perTick).document] := by
    simp only [encodeStats, document, fieldDocuments]
    exact fieldsOf_object (l := [("max", (encodeNat s.max.toNat).document),
      ("earned", (encodeNat s.earned.toNat).document),
      ("per_tick", (encodeReal s.perTick).document)])
      (show ["max", "earned", "per_tick"].Nodup by decide)
  rw [decodeStats, hfields]
  simp only [required, Option.bind_some, decode64_encodeNat]
  cases decodeReal (encodeReal s.perTick).document <;> rfl

/-! ## Players -/

section

variable {p : Player}

theorem mem_reals_of_carry {e : String × Float} (he : e ∈ p.carry.entries) : e.2 ∈ p.reals :=
  List.mem_append_left _ (List.mem_append_left _ (List.mem_map_of_mem he))

theorem mem_reals_of_multipliers {e : String × Float} (he : e ∈ p.multipliers.entries) :
    e.2 ∈ p.reals :=
  List.mem_append_left _ (List.mem_append_right _ (List.mem_map_of_mem he))

theorem mem_reals_of_stats {e : String × ResourceStats} (he : e ∈ p.stats.entries) :
    e.2.perTick ∈ p.reals :=
  List.mem_append_right _ (List.mem_map.mpr ⟨e, he, rfl⟩)

/-- Whether each finite number of a player is read back exactly. -/
def KeepsFinite (p : Player) : Prop := ∀ x ∈ p.reals, x.isFinite = true → Exact x

instance (p : Player) : Decidable (KeepsFinite p) :=
  inferInstanceAs (Decidable (∀ x ∈ p.reals, x.isFinite = true → Exact x))

theorem KeepsFinite.decodeReal_eq_some (h : KeepsFinite p)
    (hfinite : ∀ x ∈ p.reals, x.isFinite = true) :
    ∀ x ∈ p.reals, decodeReal (encodeReal x).document = some x :=
  fun x hx => (h x hx (hfinite x hx)).decodeReal

theorem legible_encodeFields (p : Player) : (Json.obj (encodeFields p)).Legible := by
  simp only [Legible, encodeFields, FieldsLegible, and_true, true_and]
  refine ⟨?_, ?_, ?_, ?_, ?_, ?_, ?_, ?_, ?_, ?_, ?_⟩
  · exact legible_encodeMap fun e _ => legible_encodeNat _
  · exact legible_encodeMap fun e _ => legible_encodeReal e.2
  · exact legible_encodeMap fun e _ => legible_encodeNat _
  · exact legible_encodeMap fun e _ => legible_bool e.2
  · exact legible_encodeMap fun e _ => legible_encodeReal e.2
  · exact legible_encodeMap fun e _ => legible_encodeNat _
  · exact legible_encodeNat _
  · exact itemsLegible_map fun s _ => legible_str s
  · exact legible_encodeMap fun e _ => legible_encodeShiny e.2
  · exact legible_encodeMap fun e _ => legible_encodeStats e.2
  · exact legible_encodeNat _

/-- The fields of a player are found under their names. -/
theorem fieldsOf_encodeFields (p : Player) :
    fieldsOf playerFields (Json.obj (encodeFields p)).document =
      some ((encodeFields p).map fun f => some f.2.document) := by
  have hdocument : (Json.obj (encodeFields p)).document =
      .object (((encodeFields p).map fun f => (f.1, f.2.document)).map
        fun f => (some f.1, f.2)) := by
    simp only [encodeFields, document, fieldDocuments, List.map_cons, List.map_nil]
  have hnodup : (((encodeFields p).map fun f => (f.1, f.2.document)).map (·.1)).Nodup := by
    show playerFields.Nodup
    decide
  rw [hdocument]
  refine (fieldsOf_object hnodup).trans ?_
  rw [List.map_map]
  rfl

/-- All of a player is read back, save for the numbers that are no counts, which may not be. -/
theorem decodePlayer_encodeFields (p : Player) :
    decodePlayer (Json.obj (encodeFields p)).document = do
      let carry ← decodeMap decodeReal (encodeMap encodeReal p.carry).document
      let multipliers ← decodeMap decodeReal (encodeMap encodeReal p.multipliers).document
      let stats ← decodeMap decodeStats (encodeMap encodeStats p.stats).document
      return { p with carry := carry, multipliers := multipliers, stats := stats } := by
  have hresources : decodeMap decode64 (encodeMap (fun n => encodeNat n.toNat) p.resources).document
      = some p.resources := decodeMap_encodeMap fun e _ => decode64_encodeNat e.2
  have hbuildings : decodeMap decode32 (encodeMap (fun n => encodeNat n.toNat) p.buildings).document
      = some p.buildings := decodeMap_encodeMap fun e _ => decode32_encodeNat e.2
  have hupgrades : decodeMap decodeBool (encodeMap .bool p.upgrades).document = some p.upgrades :=
    decodeMap_encodeMap fun e _ => by rw [document, decodeBool]
  have hachievements :
      decodeMap decode32 (encodeMap (fun n => encodeNat n.toNat) p.achievements).document =
        some p.achievements := decodeMap_encodeMap fun e _ => decode32_encodeNat e.2
  have hshinies : decodeMap decodeShiny (encodeMap encodeShiny p.shinies).document =
      some p.shinies := decodeMap_encodeMap fun e _ => decodeShiny_encodeShiny e.2
  have hlog : decodeList decodeText (Json.arr (p.log.map .str)).document = some p.log := by
    rw [document, decodeList]
    exact mapM_itemDocuments fun s _ => by rw [document, decodeText]
  have hid : decodeText (Json.str p.id).document = some p.id := by rw [document, decodeText]
  rw [decodePlayer, fieldsOf_encodeFields]
  simp only [encodeFields, List.map_cons, List.map_nil, optional, hid, hresources, hbuildings,
    hupgrades, hachievements, decode32_encodeNat, hlog, hshinies, decode64_encodeNat]
  rfl

theorem decode_eq_decodePlayer (p : Player) :
    decode (encode p) = decodePlayer (Json.obj (encodeFields p)).document := by
  rw [decode, encode, read_render (legible_encodeFields p), Option.bind_some]

/-- **What is read from the text of a player is the player**, but perhaps for the numbers that are
no counts. -/
theorem exists_of_decode_encode {q : Player} (hq : decode (encode p) = some q) :
    ∃ carry multipliers stats,
      q = { p with carry := carry, multipliers := multipliers, stats := stats } := by
  rw [decode_eq_decodePlayer, decodePlayer_encodeFields] at hq
  obtain ⟨carry, _, hq⟩ := Option.bind_eq_some_iff.mp hq
  obtain ⟨multipliers, _, hq⟩ := Option.bind_eq_some_iff.mp hq
  obtain ⟨stats, _, hq⟩ := Option.bind_eq_some_iff.mp hq
  exact ⟨carry, multipliers, stats, (Option.some_inj.mp hq).symm⟩

/-- **A player whose numbers are finite is read back.** -/
theorem decode_encode (h : KeepsFinite p) (hfinite : ∀ x ∈ p.reals, x.isFinite = true) :
    decode (encode p) = some p := by
  have hreal := h.decodeReal_eq_some hfinite
  have hcarry : decodeMap decodeReal (encodeMap encodeReal p.carry).document = some p.carry :=
    decodeMap_encodeMap fun e he => hreal e.2 (mem_reals_of_carry he)
  have hmultipliers : decodeMap decodeReal (encodeMap encodeReal p.multipliers).document =
      some p.multipliers :=
    decodeMap_encodeMap fun e he => hreal e.2 (mem_reals_of_multipliers he)
  have hstats : decodeMap decodeStats (encodeMap encodeStats p.stats).document = some p.stats :=
    decodeMap_encodeMap fun e he => by
      rw [decodeStats_encodeStats, hreal e.2.perTick (mem_reals_of_stats he), Option.map_some]
  rw [decode_eq_decodePlayer, decodePlayer_encodeFields, hcarry, hmultipliers, hstats]
  rfl

/-- **A player with a number that is not finite is not read at all.** -/
theorem decode_encode_eq_none (hnot : ¬ ∀ x ∈ p.reals, x.isFinite = true) :
    decode (encode p) = none := by
  rw [not_forall] at hnot
  obtain ⟨x, hx⟩ := hnot
  rw [Classical.not_imp] at hx
  obtain ⟨hx, hinfinite⟩ := hx
  have hnone := decodeReal_of_not_finite hinfinite
  rw [decode_eq_decodePlayer, decodePlayer_encodeFields]
  rw [Player.reals, List.mem_append, List.mem_append] at hx
  rcases hx with (hx | hx) | hx
  · obtain ⟨e, he, rfl⟩ := List.mem_map.mp hx
    rw [decodeMap_eq_none he hnone]
    rfl
  · obtain ⟨e, he, rfl⟩ := List.mem_map.mp hx
    rw [decodeMap_eq_none he hnone]
    cases decodeMap decodeReal (encodeMap encodeReal p.carry).document <;> rfl
  · obtain ⟨e, he, rfl⟩ := List.mem_map.mp hx
    have hstats : decodeStats (encodeStats e.2).document = none := by
      rw [decodeStats_encodeStats, hnone, Option.map_none]
    rw [decodeMap_eq_none he hstats]
    cases decodeMap decodeReal (encodeMap encodeReal p.carry).document with
    | none => rfl
    | some carry =>
      cases decodeMap decodeReal (encodeMap encodeReal p.multipliers).document <;> rfl

/-- **A player is read back just if each of its numbers is.** -/
theorem decode_encode_iff : decode (encode p) = some p ↔ ∀ x ∈ p.reals, Exact x := by
  constructor
  · intro h
    rw [decode_eq_decodePlayer, decodePlayer_encodeFields] at h
    obtain ⟨carry, hcarry, h⟩ := Option.bind_eq_some_iff.mp h
    obtain ⟨multipliers, hmultipliers, h⟩ := Option.bind_eq_some_iff.mp h
    obtain ⟨stats, hstats, h⟩ := Option.bind_eq_some_iff.mp h
    have hplayer := Option.some_inj.mp h
    rw [show carry = p.carry from congrArg Player.carry hplayer] at hcarry
    rw [show multipliers = p.multipliers from congrArg Player.multipliers hplayer] at hmultipliers
    rw [show stats = p.stats from congrArg Player.stats hplayer] at hstats
    simp only [Player.reals, List.mem_append, List.mem_map]
    rintro x ((⟨e, he, rfl⟩ | ⟨e, he, rfl⟩) | ⟨e, he, rfl⟩)
    · exact exact_iff.mpr (decode_of_decodeMap_encodeMap hcarry e he)
    · exact exact_iff.mpr (decode_of_decodeMap_encodeMap hmultipliers e he)
    · have hread := decode_of_decodeMap_encodeMap hstats e he
      rw [decodeStats_encodeStats] at hread
      obtain ⟨rate, hrate, hstats⟩ := Option.map_eq_some_iff.mp hread
      rw [show rate = e.2.perTick from congrArg ResourceStats.perTick hstats] at hrate
      exact exact_iff.mpr hrate
  · intro h
    refine decode_encode (fun x hx _ => h x hx) fun x hx => ?_
    by_contra hinfinite
    exact absurd ((exact_iff.mp (h x hx)).symm.trans (decodeReal_of_not_finite hinfinite)) (by simp)

/-- What is read from the text of a player is the player. -/
theorem eq_of_decode_encode (h : KeepsFinite p) {q : Player} (hq : decode (encode p) = some q) :
    q = p := by
  by_cases hfinite : ∀ x ∈ p.reals, x.isFinite = true
  · rw [decode_encode h hfinite] at hq
    exact (Option.some_inj.mp hq).symm
  · rw [decode_encode_eq_none hfinite] at hq
    exact absurd hq (by simp)

/-- A finite number is written as one literal, so it is exact if this literal denotes it. -/
theorem exact_of_finite {x : Float} (hfinite : x.isFinite = true)
    (hread : ∀ literal, readNumber (Number.real x).render.toList = some (literal, []) →
      literal.toFloat? = some x) : Exact x := by
  obtain ⟨literal, hliteral⟩ := Number.exists_readNumber_render hfinite
  exact ⟨literal, hliteral, hread literal hliteral⟩

/-- **A player whose numbers are finite is read back as it was**, whatever its texts and its counts
are, as long as no literal that one of these numbers is written as denotes a neighbour of it. -/
theorem decode_encode_of_finite (p : Player) (hfinite : ∀ x ∈ p.reals, x.isFinite = true)
    (hread : ∀ x ∈ p.reals, ∀ literal,
      readNumber (Number.real x).render.toList = some (literal, []) → literal.toFloat? = some x) :
    decode (encode p) = some p :=
  decode_encode_iff.mpr fun x hx => exact_of_finite (hfinite x hx) (hread x hx)

/-- A player whose texts need escapes, whose counts are as great as they get, and whose numbers are
the greatest, the least, a negative zero and some with many digits. -/
def veteran : Player where
  id := "the \"old\\new\" one\n\x01😀"
  resources := .ofList [("gold\t", 0xffffffffffffffff), ("", 0)]
  carry := .ofList [("gold\t", 0.1), ("", 5e-324)]
  buildings := .ofList [("mine/", 0xffffffff)]
  upgrades := .ofList [("drill", true), ("Drill", false)]
  multipliers := .ofList [("gold\t", 1.7976931348623157e308), ("", -0.0)]
  achievements := .ofList [("rich", 4294967295)]
  prestige := 0xffffffff
  log := ["last", "first", "last", "null"]
  shinies := .ofList [("comet", ⟨true, 0xffffffffffffffff⟩), ("star", .never)]
  stats := .ofList [("gold\t", ⟨0xffffffffffffffff, 1, 3.3333333333333335⟩), ("", .none)]
  lastUpdate := 0xfffffffffffffffe

theorem decode_encode_of_veteran :
    (∀ x ∈ veteran.reals, x.isFinite = true) ∧
      (∀ x ∈ veteran.reals, ∀ literal,
        readNumber (Number.real x).render.toList = some (literal, []) →
          literal.toFloat? = some x) ∧
      decode (encode veteran) = some veteran := by
  have hfinite : ∀ x ∈ veteran.reals, x.isFinite = true := by decide +kernel
  have hexact : ∀ x ∈ veteran.reals, Exact x := by decide +kernel
  have hread : ∀ x ∈ veteran.reals, ∀ literal,
      readNumber (Number.real x).render.toList = some (literal, []) →
        literal.toFloat? = some x := by
    intro x hx literal hliteral
    obtain ⟨other, hother, hvalue⟩ := hexact x hx
    rw [hliteral] at hother
    cases hother
    exact hvalue
  exact ⟨hfinite, hread, decode_encode_of_finite veteran hfinite hread⟩

end

end Snapshot

end IncrementalGame
