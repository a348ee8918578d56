import ArrayInference.Proofs.Types.Ordering

/-!
# Dtype names

A scalar type has one name that is written for it: the family in lower case, and the width in plain
decimal. More names than that are read: zeros may stand before the width, and one plus sign before the
zeros. Apart from this padding scalar types and their names match one to one, whatever a store was asked
for before, and reading the name of a type that is there gives the type itself. Main statement:
`TypeStore.Serves.dtypes_named`.
-/

namespace ArrayInference

/-- The number type of a family and width. -/
def Ty.number (home : CacheId) (family : Family) (width : Nat) : Ty :=
  match family with
  | .uint => .uint home width
  | .int => .int home width
  | _ => .float home width

namespace Dtype

/-! ## Widths in decimal -/

theorem digitChar_of_isDigit {c : Char} (isDigit : c.isDigit = true) :
    Nat.digitChar (c.toNat - '0'.toNat) = c ∧ c.toNat - '0'.toNat < 10 := by
  rw [Char.isDigit, Bool.and_eq_true, decide_eq_true_eq, decide_eq_true_eq] at isDigit
  have bounds : 48 ≤ c.toNat ∧ c.toNat ≤ 57 :=
    ⟨UInt32.le_iff_toNat_le.mp isDigit.1, UInt32.le_iff_toNat_le.mp isDigit.2⟩
  have value : c.toNat - '0'.toNat < 10 := by
    change c.toNat - 48 < 10
    omega
  refine ⟨Char.toNat_inj.mp ?_, value⟩
  rw [Nat.toNat_digitChar_of_lt_ten value]
  change 48 + (c.toNat - 48) = c.toNat
  omega

/-- Digits are the decimal of their value, after some zeros. -/
theorem exists_zeros (digits : List Char) (nonempty : digits ≠ [])
    (areDigits : ∀ c ∈ digits, c.isDigit = true) :
    ∃ zeros, digits
      = List.replicate zeros '0' ++ Nat.toDigits 10 (Nat.ofDigitChars 10 digits 0) := by
  induction digits using List.reverseRecOn with
  | nil => contradiction
  | append_singleton digits c ih =>
    obtain ⟨isLast, last⟩ := digitChar_of_isDigit (areDigits c (by simp))
    rw [Nat.ofDigitChars_append, Nat.ofDigitChars_cons, Nat.ofDigitChars_nil]
    generalize c.toNat - '0'.toNat = d at isLast last
    have one : Nat.toDigits 10 d = [c] := by rw [Nat.toDigits_of_lt_base last, isLast]
    by_cases first : digits = []
    · subst first
      exact ⟨0, by rw [Nat.ofDigitChars_nil, Nat.mul_zero, Nat.zero_add, one]; rfl⟩
    · obtain ⟨zeros, same⟩ := ih first fun c hc => areDigits c (by simp [hc])
      generalize Nat.ofDigitChars 10 digits 0 = n at same
      subst same
      rcases Nat.eq_zero_or_pos n with rfl | positive
      · refine ⟨zeros + 1, ?_⟩
        rw [Nat.mul_zero, Nat.zero_add, one, Nat.toDigits_zero, List.replicate_succ']
      · refine ⟨zeros, ?_⟩
        rw [← Nat.toDigits_append_toDigits (by decide) positive last, one, List.append_assoc]

/-- What may stand before the digits of a width: zeros, and before them a plus sign. -/
def Padding (padding : List Char) : Prop :=
  ∃ zeros, padding = List.replicate zeros '0' ∨ padding = '+' :: List.replicate zeros '0'

/-- Reads the digits of a width. -/
def decimal? (digits : List Char) : Option Nat :=
  if digits.isEmpty || !digits.all Char.isDigit then none
  else
    let value := digits.foldl (fun n c => 10 * n + (c.toNat - '0'.toNat)) 0
    if value ≤ maxWidth then some value else none

theorem decimal?_eq_some {digits : List Char} {width : Nat} :
    decimal? digits = some width
      ↔ width ≤ maxWidth ∧ ∃ zeros, digits = List.replicate zeros '0' ++ Nat.toDigits 10 width := by
  constructor
  · intro read
    rw [decimal?, ← Nat.ofDigitChars_eq_foldl] at read
    split at read
    · contradiction
    · rename_i proper
      dsimp only at read
      split at read
      · obtain rfl := Option.some.inj read
        rw [Bool.not_eq_true, Bool.or_eq_false_iff, Bool.not_eq_false', List.isEmpty_eq_false_iff,
          List.all_eq_true] at proper
        exact ⟨‹_›, exists_zeros digits proper.1 proper.2⟩
      · contradiction
  · rintro ⟨bound, zeros, rfl⟩
    have nonempty : (List.replicate zeros '0' ++ Nat.toDigits 10 width).isEmpty = false := by
      simp [Nat.toDigits_ne_nil]
    have areDigits : (List.replicate zeros '0' ++ Nat.toDigits 10 width).all Char.isDigit = true := by
      rw [List.all_append, Bool.and_eq_true, List.all_eq_true, List.all_eq_true]
      constructor
      · intro c hc
        rw [List.eq_of_mem_replicate hc]
        rfl
      · intro c hc
        exact Nat.isDigit_of_mem_toDigits (by decide) (by decide) hc
    rw [decimal?, ← Nat.ofDigitChars_eq_foldl, nonempty, areDigits, Nat.ofDigitChars_append,
      Nat.ofDigitChars_replicate_zero, Nat.mul_zero, Nat.ofDigitChars_ten_toDigits]
    simp [bound]

theorem width?_of_plus (digits : List Char) : width? ('+' :: digits) = decimal? digits :=
  rfl

theorem width?_of_no_plus {text : List Char} (noPlus : ∀ digits, text ≠ '+' :: digits) :
    width? text = decimal? text := by
  rw [width?.eq_def, decimal?]
  split
  · exact absurd rfl (noPlus _)
  · rfl

/-- A decimal after padding has a plus sign in front only if the padding has. -/
theorem ne_plus (zeros width : Nat) (digits : List Char) :
    List.replicate zeros '0' ++ Nat.toDigits 10 width ≠ '+' :: digits := by
  intro same
  have plus : '+' ∈ List.replicate zeros '0' ++ Nat.toDigits 10 width := by simp [same]
  rcases List.mem_append.mp plus with zero | digit
  · exact absurd (List.eq_of_mem_replicate zero) (by decide)
  · exact absurd (Nat.isDigit_of_mem_toDigits (by decide) (by decide) digit) (by decide)

/-- A width is read from its decimal, padded or not, and from nothing else. -/
theorem width?_eq_some {text : List Char} {width : Nat} :
    width? text = some width
      ↔ width ≤ maxWidth ∧ ∃ padding, Padding padding ∧ text = padding ++ Nat.toDigits 10 width := by
  by_cases plus : ∃ digits, text = '+' :: digits
  · obtain ⟨digits, rfl⟩ := plus
    rw [width?_of_plus, decimal?_eq_some]
    constructor
    · rintro ⟨bound, zeros, rfl⟩
      exact ⟨bound, _, ⟨zeros, .inr rfl⟩, rfl⟩
    · rintro ⟨bound, _, ⟨zeros, rfl | rfl⟩, same⟩
      · exact absurd same.symm (ne_plus _ _ _)
      · exact ⟨bound, zeros, (List.cons.inj same).2⟩
  · push Not at plus
    rw [width?_of_no_plus plus, decimal?_eq_some]
    constructor
    · rintro ⟨bound, zeros, same⟩
      exact ⟨bound, _, ⟨zeros, .inl rfl⟩, same⟩
    · rintro ⟨bound, _, ⟨zeros, rfl | rfl⟩, same⟩
      · exact ⟨bound, zeros, same⟩
      · exact absurd same (plus _)

/-! ## Names -/

/-- A dtype name with a width, with padding before the width. -/
def numbered (opening : String) (padding : List Char) (width : Nat) : String :=
  String.ofList (opening.toList ++ (padding ++ Nat.toDigits 10 width))

/-- The dtype name of a scalar type, with padding before the width. -/
inductive Names (home : CacheId) (padding : List Char) : String → Ty → Prop
  | bool (plain : padding = []) : Names home padding "bool" (.generic home .bool)
  | int {width : Nat} (legal : width ∈ integerWidths) :
      Names home padding (numbered "int" padding width) (.int home width)
  | uint {width : Nat} (legal : width ∈ integerWidths) :
      Names home padding (numbered "uint" padding width) (.uint home width)
  | float {width : Nat} (legal : width ∈ floatWidths) :
      Names home padding (numbered "float" padding width) (.float home width)

/-- What the dtype names of the number families open with. -/
def openings : List (Family × String) :=
  [(.uint, "uint"), (.int, "int"), (.float, "float")]

theorem dropOpening?_eq_some {opening text rest : List Char} :
    dropOpening? opening text = some rest ↔ text = opening ++ rest := by
  induction opening generalizing text with
  | nil => simp [dropOpening?]
  | cons c cs ih =>
    cases text with
    | nil => simp [dropOpening?]
    | cons d ds =>
      rw [dropOpening?, List.cons_append, List.cons.injEq]
      by_cases same : c = d
      · simp [same, ih]
      · simp [same, Ne.symm same]

theorem exists_opening {name : String} {family : Family} {rest : List Char}
    (parts : dtypeParts? name = some (family, rest)) :
    ∃ opening, (family, opening) ∈ openings ∧ name.toList = opening.toList ++ rest := by
  rw [dtypeParts?] at parts
  split at parts
  case h_1 found =>
    cases parts
    exact ⟨_, by simp [openings], dropOpening?_eq_some.mp found⟩
  split at parts
  case h_1 found =>
    cases parts
    exact ⟨_, by simp [openings], dropOpening?_eq_some.mp found⟩
  obtain ⟨other, found, same⟩ := Option.map_eq_some_iff.mp parts
  cases same
  exact ⟨_, by simp [openings], dropOpening?_eq_some.mp found⟩

theorem dtypeParts?_numbered {family : Family} {opening : String}
    (opens : (family, opening) ∈ openings) (padding : List Char) (width : Nat) :
    dtypeParts? (numbered opening padding width)
      = some (family, padding ++ Nat.toDigits 10 width) := by
  simp only [dtypeParts?, numbered, String.toList_ofList]
  rcases opens with _ | ⟨_, _ | ⟨_, _ | ⟨_, ⟨⟩⟩⟩⟩ <;> rfl

theorem integerWidth_le {width : Nat} (legal : width ∈ integerWidths) : width ≤ maxWidth :=
  (by decide : ∀ width ∈ integerWidths, width ≤ maxWidth) width legal

theorem floatWidth_le {width : Nat} (legal : width ∈ floatWidths) : width ≤ maxWidth :=
  (by decide : ∀ width ∈ floatWidths, width ≤ maxWidth) width legal

section

variable {home : CacheId} {family : Family} {opening name : String} {width : Nat}
  {padding rest : List Char} {type : Ty}

/-- A name with a width is read back in its parts. -/
theorem exists_rest (opens : (family, opening) ∈ openings) (bound : width ≤ maxWidth)
    (proper : Padding padding) :
    ∃ rest, dtypeParts? (numbered opening padding width) = some (family, rest)
      ∧ width? rest = some width :=
  ⟨_, dtypeParts?_numbered opens padding width,
    width?_eq_some.mpr ⟨bound, padding, proper, rfl⟩⟩

/-- Parts that are read are those of a name. -/
theorem exists_names (parts : dtypeParts? name = some (family, rest)) (read : width? rest = some width)
    (legal : (Ty.number home family width).HasLegalWidth) :
    ∃ padding, Padding padding ∧ Names home padding name (Ty.number home family width) := by
  obtain ⟨opening, opens, same⟩ := exists_opening parts
  obtain ⟨-, padding, proper, rfl⟩ := width?_eq_some.mp read
  obtain rfl : name = numbered opening padding width := by
    rw [numbered, ← same, String.ofList_toList]
  refine ⟨padding, proper, ?_⟩
  rcases opens with _ | ⟨_, _ | ⟨_, _ | ⟨_, ⟨⟩⟩⟩⟩
  · exact .uint legal
  · exact .int legal
  · exact .float legal

/-- What is read as the name of a type is its name, padded or not. -/
theorem exists_names_iff :
    (∃ padding, Padding padding ∧ Names home padding name type)
      ↔ name = "bool" ∧ type = .generic home .bool
        ∨ ∃ family rest width, dtypeParts? name = some (family, rest) ∧ width? rest = some width
          ∧ (Ty.number home family width).HasLegalWidth ∧ type = Ty.number home family width := by
  constructor
  · rintro ⟨padding, proper, names⟩
    cases names with
    | bool => exact .inl ⟨rfl, rfl⟩
    | int legal =>
      have opens : (Family.int, "int") ∈ openings := by decide
      obtain ⟨rest, parts, read⟩ := exists_rest opens (integerWidth_le legal) proper
      exact .inr ⟨_, _, _, parts, read, legal, rfl⟩
    | uint legal =>
      have opens : (Family.uint, "uint") ∈ openings := by decide
      obtain ⟨rest, parts, read⟩ := exists_rest opens (integerWidth_le legal) proper
      exact .inr ⟨_, _, _, parts, read, legal, rfl⟩
    | float legal =>
      have opens : (Family.float, "float") ∈ openings := by decide
      obtain ⟨rest, parts, read⟩ := exists_rest opens (floatWidth_le legal) proper
      exact .inr ⟨_, _, _, parts, read, legal, rfl⟩
  · rintro (⟨rfl, rfl⟩ | ⟨family, rest, width, parts, read, legal, rfl⟩)
    · exact ⟨[], ⟨0, .inl rfl⟩, .bool rfl⟩
    · exact exists_names parts read legal

end

end Dtype

namespace Interning

open Dtype

/-! ## Reading a name -/

variable {name : String} {c : TypeCache} {type : Ty} {padding : List Char}

theorem tryCatch_answer (make : ExceptT TypeError Interning Ty) (e : TypeError) :
    ((tryCatch make fun _ => throw e).run.run c).1
      = match (make.run.run c).1 with
        | .ok t => .ok t
        | .error _ => .error e := by
  rw [ExceptT.run_tryCatch, StateT.run_bind]
  generalize make.run.run c = made
  obtain ⟨result, c'⟩ := made
  cases result <;> rfl

theorem checkedWidth_eq_ok {legal : List Nat} {family : Family} {width : Nat}
    {make : CacheId → Ty} :
    ((checkedWidth legal family width make).run.run c).1 = .ok type
      ↔ width ∈ legal ∧ type = make c.home := by
  rw [checkedWidth]
  split
  case isTrue legal =>
    show Except.ok (make c.home) = .ok type ↔ _
    rw [Except.ok.injEq, eq_comm, and_iff_right legal]
  case isFalse illegal =>
    show Except.error _ = .ok type ↔ _
    simp [illegal]

theorem numberType_eq_ok {family : Family} {width : Nat} :
    ((numberType family width).run.run c).1 = .ok type
      ↔ (Ty.number c.home family width).HasLegalWidth ∧ type = Ty.number c.home family width := by
  have number (generic : Family) (make : CacheId → Ty) {legal : List Nat} {family : Family} :
      ((checkedWidth legal family width make).run.run ((Interning.generic generic).run c).2).1
        = .ok type ↔ width ∈ legal ∧ type = make c.home := by
    rw [checkedWidth_eq_ok, (steady_generic generic).home c]
  cases family
  case int => exact number .int (.int · width)
  case uint => exact number .uint (.uint · width)
  all_goals exact number .float (.float · width)

/-- A name is taken for a type if it is the name of the type, padded or not. -/
theorem ofDtype_eq_ok :
    ((ofDtype name).run.run c).1 = .ok type
      ↔ ∃ padding, Padding padding ∧ Names c.home padding name type := by
  rw [exists_names_iff, ofDtype]
  by_cases isBool : name = "bool"
  · subst isBool
    have noParts : dtypeParts? "bool" = none := by decide
    rw [if_pos rfl, noParts]
    show Except.ok (Ty.generic c.home .bool) = .ok type ↔ _
    simp [eq_comm]
  · rw [if_neg isBool]
    cases parts : dtypeParts? name with
    | none =>
      show Except.error _ = .ok type ↔ _
      simp [isBool]
    | some pair =>
      obtain ⟨family, rest⟩ := pair
      dsimp only
      cases read : width? rest with
      | none =>
        show Except.error _ = .ok type ↔ _
        simp [isBool, read]
      | some width =>
        dsimp only
        have taken : ((tryCatch (numberType family width) fun _ => throw (.unknownDtype name)).run.run
            c).1 = .ok type ↔ ((numberType family width).run.run c).1 = .ok type := by
          rw [tryCatch_answer]
          cases ((numberType family width).run.run c).1 <;> simp
        rw [taken, numberType_eq_ok]
        simp [isBool, read]

/-- Any other name is unknown. -/
theorem eq_unknownDtype {e : TypeError} (failed : ((ofDtype name).run.run c).1 = .error e) :
    e = .unknownDtype name := by
  rw [ofDtype] at failed
  split at failed
  · cases failed
  · split at failed
    · cases failed
      rfl
    · split at failed
      · cases failed
        rfl
      · rw [tryCatch_answer] at failed
        split at failed <;> cases failed
        rfl

end Interning

namespace Dtype

/-! ## Writing a name -/

/-- Padding shows in the name. -/
theorem numbered_eq_iff {opening : String} {padding : List Char} {width : Nat} :
    numbered opening [] width = numbered opening padding width ↔ padding = [] := by
  rw [numbered, numbered, String.ofList_inj, List.append_cancel_left_eq, List.nil_append,
    List.self_eq_append_left]

/-- Without padding the width is written as it is. -/
theorem numbered_nil (opening : String) (width : Nat) :
    numbered opening [] width = opening ++ toString width := by
  rw [numbered, List.nil_append, String.ofList_append, String.ofList_toList]
  rfl

theorem dtype_eq_ok_iff {home : CacheId} {padding : List Char} {name : String} {type : Ty}
    (named : Names home padding name type) : type.dtype = .ok name ↔ padding = [] := by
  cases named with
  | bool plain => exact iff_of_true rfl plain
  | int | uint | float =>
    rw [Ty.dtype, ← numbered_nil, Except.ok.injEq, numbered_eq_iff]

theorem names_iff {type : Ty} {name : String} (legal : type.HasLegalWidth) :
    Names type.home [] name type ↔ type.dtype = .ok name := by
  constructor
  · intro named
    exact (dtype_eq_ok_iff named).mpr rfl
  · intro written
    cases type with
    | generic home family =>
      cases family <;> cases written
      exact .bool rfl
    | int home bits =>
      cases written
      exact numbered_nil "int" bits ▸ .int legal
    | uint home bits =>
      cases written
      exact numbered_nil "uint" bits ▸ .uint legal
    | float home bits =>
      cases written
      exact numbered_nil "float" bits ▸ .float legal
    | _ => cases written

theorem eq_notAScalar {type : Ty} {e : TypeError} (failed : type.dtype = .error e) :
    e = .notAScalar type.text := by
  rw [Ty.dtype.eq_def] at failed
  split at failed <;> cases failed
  rfl

end Dtype

/-! ## Widths that are made -/

/-- All numbers that were made are of a legal width. -/
def TypeCache.HasLegalWidths (c : TypeCache) : Prop :=
  ∀ t ∈ c.entries, t.HasLegalWidth

theorem TypeCache.HasLegalWidths.add {c : TypeCache} {t : Ty} (legal : c.HasLegalWidths)
    (isLegal : t.HasLegalWidth) : (c.add t).HasLegalWidths := by
  rw [TypeCache.add]
  split
  · exact legal
  · exact List.forall_mem_cons.mpr ⟨isLegal, legal⟩

theorem stepwise_hasLegalWidths :
    Interning.Stepwise fun _ make => ∀ c : TypeCache, c.HasLegalWidths →
      (make.run c).2.HasLegalWidths where
  pure _ _ legal := legal
  bind h h' c legal := h' _ _ (h c legal)
  intern isLegal c legal := (legal.add (t := .generic _ _) trivial).add (isLegal c.home)
  declaredTag _ _ _ legal := legal

theorem Request.hasLegalWidths (request : Request) (s : TypeStore) (c : TypeCache)
    (legal : c.HasLegalWidths) : ((request.onTypes s).run c).2.HasLegalWidths := by
  have steps := stepwise_hasLegalWidths
  cases request with
  | generic family => exact steps.generic family c legal
  | int width => exact steps.int width c legal
  | uint width => exact steps.uint width c legal
  | float width => exact steps.float width c legal
  | tuple elements => exact steps.tuple _ c legal
  | list element => exact steps.list _ c legal
  | array element => exact steps.array _ c legal
  | function params result => exact steps.function _ _ c legal
  | external host => exact steps.external _ c legal
  | record tag attributes methods => exact steps.record _ _ _ c legal
  | instantiate g params => exact steps.instantiate _ _ c legal
  | ofDtype name => exact steps.ofDtype name c legal
  | typeOf value => exact steps.typeOfConstant value c legal
  | classTag | newTag => exact legal

namespace TypeStore

open Dtype

variable {names : ObjectId → String} {s t : TypeStore} {h : TypeId}
  {log : List (Request × Reply TypeId TagId)}

/-! ## Names and the types of a store -/

theorem Serves.hasLegalWidths (serves : Serves names s log t) (sound : s.Sound names)
    (legal : s.cache.HasLegalWidths) : t.cache.HasLegalWidths := by
  induction serves with
  | done => exact legal
  | @ask s _ _ request _ _ takes served _ ih =>
    obtain ⟨u, _, _, run, run', sound', -, -⟩ := Request.mirrors_perform sound takes
    rw [served] at run
    cases run
    have kept := request.hasLegalWidths s s.cache legal
    rw [run'] at kept
    exact ih sound' kept

/-- Reading a dtype name gives what reading it for whole types gives. -/
theorem Sound.ofDtype (sound : s.Sound names) (name : String) :
    ∃ result t, (Storing.ofDtype name).run.run s = (result, t) ∧ t.Sound names ∧ s.Later t
      ∧ Storing.Same TypeStore.Stands t result ((Interning.ofDtype name).run.run s.cache).1 := by
  obtain ⟨t, result, answer, run, run', sound', up, same⟩ := Storing.mirrors_ofDtype sound name
  exact ⟨result, t, run, sound', up, run' ▸ same⟩

/-- Reading a name gives a type. -/
def ReadsAs (s : TypeStore) (name : String) (type : Ty) : Prop :=
  ∃ h t, (Storing.ofDtype name).run.run s = (.ok h, t) ∧ t.read h = type

theorem Sound.readsAs_iff (sound : s.Sound names) {name : String} {type : Ty} :
    s.ReadsAs name type ↔ ∃ padding, Padding padding ∧ Names s.home padding name type := by
  show _ ↔ ∃ padding, Padding padding ∧ Names s.cache.home padding name type
  rw [← Interning.ofDtype_eq_ok]
  obtain ⟨result, t, run, -, -, same⟩ := sound.ofDtype name
  constructor
  · rintro ⟨h, u, run', read⟩
    rw [run] at run'
    cases run'
    generalize ((Interning.ofDtype name).run.run s.cache).1 = answer at same
    cases answer with
    | ok type' => rw [← same.2, read]
    | error e => exact same.elim
  · intro answer
    rw [answer] at same
    cases result with
    | ok h => exact ⟨h, t, run, same.2⟩
    | error e => exact same.elim

theorem Sound.eq_unknownDtype (sound : s.Sound names) {name : String} {e : TypeError}
    (failed : (Storing.ofDtype name).run.run s = (.error e, t)) : e = .unknownDtype name := by
  obtain ⟨result, u, run, -, -, same⟩ := sound.ofDtype name
  rw [run] at failed
  cases failed
  cases answer : ((Interning.ofDtype name).run.run s.cache).1 with
  | ok type => exact (answer ▸ same).elim
  | error e' =>
    rw [answer] at same
    exact same.trans (Interning.eq_unknownDtype answer)

/-- A type that is there comes back itself. -/
theorem Sound.ofDtype_eq (sound : s.Sound names) (held : s.Holds h) {padding : List Char}
    {name : String} (proper : Padding padding) (named : Names s.home padding name (s.read h)) :
    ∃ t, (Storing.ofDtype name).run.run s = (.ok h, t) := by
  obtain ⟨result, t, run, sound', up, same⟩ := sound.ofDtype name
  rw [Interning.ofDtype_eq_ok.mpr ⟨padding, proper, named⟩] at same
  cases result with
  | ok k =>
    obtain rfl : k = h := by
      apply sound'.read_injective same.1 (up.holds held)
      rw [same.2, up.read sound sound' held]
    exact ⟨t, run⟩
  | error e => exact same.elim

/-- What dtype names do for the types of a store. -/
structure Named (s : TypeStore) : Prop where
  /-- A name is read exactly if it is the name of a type, padded or not, and gives that type. -/
  read : ∀ {name : String} {type : Ty},
    s.ReadsAs name type ↔ ∃ padding, Padding padding ∧ Names s.home padding name type
  /-- Any other name is unknown. -/
  unknown : ∀ {name : String} {e : TypeError} {t : TypeStore},
    (Storing.ofDtype name).run.run s = (.error e, t) → e = .unknownDtype name
  /-- The name of a type is written without padding. -/
  written : ∀ {h : TypeId} {name : String}, s.Holds h →
    ((s.read h).dtype = .ok name ↔ Names s.home [] name (s.read h))
  /-- What is no scalar has no name. -/
  nameless : ∀ {h : TypeId} {e : TypeError}, (s.read h).dtype = .error e →
    e = .notAScalar (s.read h).text
  /-- Reading the name of a type gives the type itself. -/
  back : ∀ {h : TypeId} {name : String}, s.Holds h → (s.read h).dtype = .ok name →
    ∃ t, (Storing.ofDtype name).run.run s = (.ok h, t)
  /-- So does reading a padded name, but that is not the name that is written for the type. -/
  padded : ∀ {h : TypeId} {name : String} {padding : List Char}, s.Holds h → Padding padding →
    Names s.home padding name (s.read h) →
      (∃ t, (Storing.ofDtype name).run.run s = (.ok h, t))
        ∧ ((s.read h).dtype = .ok name ↔ padding = [])

/-- Scalar types and their names match but for padding, whatever the store was asked for before. -/
theorem Serves.dtypes_named {home : CacheId} (serves : Serves names (.empty home) log s) : Named s := by
  have sound := (serves.sound (.empty home)).1
  have written {h : TypeId} {name : String} (held : s.Holds h) :
      (s.read h).dtype = .ok name ↔ Names s.home [] name (s.read h) := by
    have legal := serves.hasLegalWidths (.empty home) (List.forall_mem_nil _)
    rw [← sound.home_read held]
    exact (names_iff (legal _ (mem_entries.mpr ⟨h, held, rfl⟩))).symm
  constructor
  case read => exact sound.readsAs_iff
  case unknown => exact sound.eq_unknownDtype
  case written => exact written
  case nameless => exact eq_notAScalar
  case back =>
    intro h name held isWritten
    exact sound.ofDtype_eq held ⟨0, .inl rfl⟩ ((written held).mp isWritten)
  case padded =>
    intro h name padding held proper named
    exact ⟨sound.ofDtype_eq held proper named, dtype_eq_ok_iff named⟩

/-- A name, a padded name of the same type, and a width that there is no type for. -/
def dtypeLog : List (Request × Reply TypeId TagId) :=
  [(.ofDtype "int64", .type (.ok ⟨1⟩)), (.ofDtype "int+064", .type (.ok ⟨1⟩)),
   (.ofDtype "int12", .type (.error (.unknownDtype "int12")))]

theorem Serves.dtypes_named_padded :
    ∃ s, Serves (fun _ => "") (.empty ⟨0⟩) dtypeLog s ∧ Named s := by
  have serves : ∃ s, Serves (fun _ => "") (.empty ⟨0⟩) dtypeLog s :=
    ⟨_, .ask trivial rfl (.ask trivial rfl (.ask trivial rfl .done))⟩
  obtain ⟨s, serves⟩ := serves
  exact ⟨s, serves, serves.dtypes_named⟩

end TypeStore

end ArrayInference
