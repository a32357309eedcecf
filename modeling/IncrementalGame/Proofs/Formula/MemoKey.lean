import Mathlib.Tactic
import IncrementalGame.Formula.Evaluator
import IncrementalGame.Proofs.Binary64.PlainText

/-!
# The key of a memory determines what was asked

A key is the formula, a bar, and the bindings `name=value;` in order.  The bar behind the formula is
the last one of the key, as neither names nor numbers contain one, and in each binding the first
equals sign and the first semicolon behind it end the name and the number.  So where no name
contains one of the three separators (`Separable`), the key determines the formula and the snapshot
(`eq_of_memoKey_eq`).
-/

namespace IncrementalGame.Formula

/-! ## Splitting at a separator -/

section Splitting

variable {α : Type*} {c : α} {l l' m m' : List α}

/-- Two lists that agree agree up to the first occurrence of an entry, and behind it. -/
theorem eq_and_eq_of_split_first (hl : c ∉ l) (hl' : c ∉ l') (h : l ++ c :: m = l' ++ c :: m') :
    l = l' ∧ m = m' := by
  induction l generalizing l' with
  | nil =>
    cases l' with
    | nil => exact ⟨rfl, (List.cons.inj h).2⟩
    | cons b l' =>
      have hb : c = b := (List.cons.inj h).1
      exact absurd (hb ▸ List.mem_cons_self) hl'
  | cons a l ih =>
    cases l' with
    | nil =>
      have ha : a = c := (List.cons.inj h).1
      exact absurd (ha ▸ List.mem_cons_self) hl
    | cons b l' =>
      obtain ⟨hab, hrest⟩ := List.cons.inj h
      obtain ⟨hll, hmm⟩ := ih (fun hc => hl (List.mem_cons_of_mem _ hc))
        (fun hc => hl' (List.mem_cons_of_mem _ hc)) hrest
      exact ⟨by rw [hab, hll], hmm⟩

/-- The same from the end: up to the last occurrence, and behind it. -/
theorem eq_and_eq_of_split_last (hm : c ∉ m) (hm' : c ∉ m') (h : l ++ c :: m = l' ++ c :: m') :
    l = l' ∧ m = m' := by
  have hrev := congrArg List.reverse h
  rw [List.reverse_append, List.reverse_append, List.reverse_cons, List.reverse_cons,
    List.append_assoc, List.append_assoc] at hrev
  obtain ⟨hmm, hll⟩ := eq_and_eq_of_split_first (mt List.mem_reverse.mp hm)
    (mt List.mem_reverse.mp hm') hrev
  exact ⟨List.reverse_inj.mp hll, List.reverse_inj.mp hmm⟩

end Splitting

/-! ## Names and bindings -/

/-- Whether a character separates the parts of a key. -/
def IsSeparator (c : Char) : Prop := c = '=' ∨ c = ';' ∨ c = '|'

/-- Whether no name of a snapshot contains a separator. -/
def Separable (vars : Variables) : Prop :=
  ∀ binding ∈ vars.entries, ∀ c ∈ binding.1.toList, ¬IsSeparator c

instance : DecidablePred IsSeparator := fun c =>
  inferInstanceAs (Decidable (c = '=' ∨ c = ';' ∨ c = '|'))

-- The instance of lists is named, since characters are finitely many and could all be tried.
instance (vars : Variables) : Decidable (Separable vars) :=
  have : DecidablePred fun binding : String × Float => ∀ c ∈ binding.1.toList, ¬IsSeparator c :=
    fun binding => List.decidableBAll (¬IsSeparator ·) binding.1.toList
  List.decidableBAll _ vars.entries

/-- No number is written with a separator. -/
theorem not_isSeparator_of_mem_plain {x : Float} {c : Char} (h : c ∈ (Binary64.plain x).toList) :
    ¬IsSeparator c := by
  rintro (rfl | rfl | rfl)
  all_goals
    rcases Binary64.mem_plain h with hdigit | hword
    · exact absurd hdigit (by decide)
    · exact absurd hword (by decide)

/-- The bindings of a snapshot as they stand in its key. -/
def bindingChars (bindings : List (String × Float)) : List Char :=
  bindings.flatMap fun b => (bindingText b.1 b.2).toList

theorem toList_bindingText (name : String) (x : Float) :
    (bindingText name x).toList =
      name.toList ++ '=' :: ((Binary64.plain x).toList ++ [';']) := by
  rw [bindingText, String.toList_append, String.toList_append, String.toList_append,
    List.append_assoc, List.append_assoc]
  rfl

theorem bindingChars_cons (name : String) (x : Float) (rest : List (String × Float)) :
    bindingChars ((name, x) :: rest) =
      name.toList ++ '=' :: ((Binary64.plain x).toList ++ ';' :: bindingChars rest) := by
  rw [bindingChars, List.flatMap_cons, toList_bindingText, List.append_assoc, List.cons_append,
    List.append_assoc, List.singleton_append, bindingChars]

/-- The key is the formula, a bar and the bindings. -/
theorem toList_memoKey (formula : String) (vars : Variables) :
    (memoKey formula vars).toList = formula.toList ++ '|' :: bindingChars vars.entries := by
  have hfold : ∀ (bindings : List (String × Float)) (start : String),
      (bindings.foldl (fun key b => key ++ bindingText b.1 b.2) start).toList =
        start.toList ++ bindingChars bindings := by
    intro bindings
    induction bindings with
    | nil =>
      intro start
      rw [List.foldl_nil, bindingChars, List.flatMap_nil, List.append_nil]
    | cons b rest ih =>
      intro start
      rw [List.foldl_cons, ih, String.toList_append, List.append_assoc, bindingChars, bindingChars,
        List.flatMap_cons]
  rw [memoKey, KeyMap.foldl, hfold, String.toList_append, List.append_assoc]
  rfl

/-- No bar stands among bindings with separable names. -/
theorem bar_notMem_bindingChars {bindings : List (String × Float)}
    (h : ∀ b ∈ bindings, ∀ c ∈ b.1.toList, ¬IsSeparator c) : '|' ∉ bindingChars bindings := by
  intro hbar
  rw [bindingChars, List.mem_flatMap] at hbar
  obtain ⟨⟨name, x⟩, hb, hmem⟩ := hbar
  rw [toList_bindingText] at hmem
  rcases List.mem_append.mp hmem with hname | hmem
  · exact h _ hb '|' hname (.inr (.inr rfl))
  · rcases List.mem_cons.mp hmem with heq | hmem
    · exact absurd heq (by decide)
    · rcases List.mem_append.mp hmem with hplain | hsemicolon
      · exact not_isSeparator_of_mem_plain hplain (.inr (.inr rfl))
      · exact absurd hsemicolon (by decide)

/-- Bindings with separable names are determined by how they are written. -/
theorem eq_of_bindingChars_eq {bindings bindings' : List (String × Float)}
    (h : ∀ b ∈ bindings, ∀ c ∈ b.1.toList, ¬IsSeparator c)
    (h' : ∀ b ∈ bindings', ∀ c ∈ b.1.toList, ¬IsSeparator c)
    (heq : bindingChars bindings = bindingChars bindings') : bindings = bindings' := by
  induction bindings generalizing bindings' with
  | nil =>
    cases bindings' with
    | nil => rfl
    | cons b rest =>
      rw [bindingChars_cons] at heq
      exact absurd heq.symm (List.append_ne_nil_of_right_ne_nil _ (List.cons_ne_nil _ _))
  | cons b rest ih =>
    obtain ⟨name, x⟩ := b
    cases bindings' with
    | nil =>
      rw [bindingChars_cons] at heq
      exact absurd heq (List.append_ne_nil_of_right_ne_nil _ (List.cons_ne_nil _ _))
    | cons b' rest' =>
      obtain ⟨name', x'⟩ := b'
      rw [bindingChars_cons, bindingChars_cons] at heq
      -- the name ends at the first equals sign, the number at the semicolon behind it
      obtain ⟨hname, hbehind⟩ := eq_and_eq_of_split_first
        (fun hc => h _ List.mem_cons_self '=' hc (.inl rfl))
        (fun hc => h' _ List.mem_cons_self '=' hc (.inl rfl)) heq
      obtain ⟨hplain, hrest⟩ := eq_and_eq_of_split_first
        (fun hc => not_isSeparator_of_mem_plain hc (.inr (.inl rfl)))
        (fun hc => not_isSeparator_of_mem_plain hc (.inr (.inl rfl))) hbehind
      have hnames : name = name' := String.toList_inj.mp hname
      have hx : x = x' := Binary64.plain_injective (String.toList_inj.mp hplain)
      have htail := ih (fun b hb => h b (List.mem_cons_of_mem _ hb))
        (fun b hb => h' b (List.mem_cons_of_mem _ hb)) hrest
      rw [hnames, hx, htail]

/-- **The key determines the formula and the snapshot.** -/
theorem eq_of_memoKey_eq {formula formula' : String} {vars vars' : Variables}
    (hv : Separable vars) (hv' : Separable vars')
    (h : memoKey formula vars = memoKey formula' vars') : formula = formula' ∧ vars = vars' := by
  have hchars := congrArg String.toList h
  rw [toList_memoKey, toList_memoKey] at hchars
  obtain ⟨hformula, hbindings⟩ := eq_and_eq_of_split_last (bar_notMem_bindingChars hv)
    (bar_notMem_bindingChars hv') hchars
  exact ⟨String.toList_inj.mp hformula,
    KeyMap.ext_entries (eq_of_bindingChars_eq hv hv' hbindings)⟩

end IncrementalGame.Formula
