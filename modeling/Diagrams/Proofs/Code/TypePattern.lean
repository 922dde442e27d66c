/-
How the type of a member is matched.

Type arguments end at the first closing angle bracket that lets the rest match.  The rest wants a
blank behind the type, and inside the arguments no blank follows a closing bracket: square brackets,
a comma or another closing bracket do (`Sealed`).  So no bracket inside is taken for the last one,
and the match ends where the type does, or behind the dots that follow it (`run_type`).
-/
import Diagrams.Proofs.Code.Qualified
import Diagrams.Proofs.Pattern.Blanks

namespace Diagrams.Code.Written

open Pattern

variable {place : Place Slot} {next : Continuation Slot} {found : Place Slot}

/-! ### Square brackets -/

/-- A pair of square brackets. -/
def square : Pattern Slot := all [spaces, lit '[', spaces, lit ']']

/-- What may follow the arguments of a type. -/
def typeEnd : Pattern Slot := all [star square, opt (all [spaces, exactly "..."])]

theorem squares_succ (n : Nat) : squares (n + 1) = '[' :: ']' :: squares n := rfl

theorem run_square {rest : Text} (h : place.rest = '[' :: ']' :: rest) :
    square.run place next = next (place.past ['[', ']'] rest) := by
  unfold square
  rw [run_all_cons, run_spaces_of_stop (by rw [h]; exact forall_head?_cons (by decide) _),
    run_all_cons, run_lit h, run_all_cons, run_spaces_of_stop (forall_head?_cons (by decide) _),
    run_all_cons, run_lit rfl, run_all_nil, Place.past_past]
  rfl

theorem repeats_square {n : Nat} {rest : Text} (h : place.rest = squares n ++ rest) :
    Repeats square place (place.past (squares n) rest) := by
  induction n generalizing place with
  | zero =>
      rw [squares, show place.past [] rest = place from Place.past_nil h]
      exact .done
  | succ n ih =>
      have hrest : place.rest = '[' :: ']' :: (squares n ++ rest) := h
      have htail := ih (Place.rest_past place ['[', ']'] (squares n ++ rest))
      rw [Place.past_past] at htail
      refine .step (fun next => run_square hrest) ?_ htail
      rw [Place.rest_past, hrest, List.length_cons, List.length_cons]
      omega

theorem dropWhile_space {after : Text} (h : ∀ c ∈ after.head?, isWordChar c = true) :
    (' ' :: after).dropWhile isBlank = after :=
  dropWhile_append_of_stop forall_blank_space fun c hc => isBlank_of_isWordChar (h c hc)

/-- The dots behind a type are matched where they stand. -/
theorem run_ellipsis {isVariadic : Bool} {after : Text}
    (h : place.rest = ellipsis isVariadic ++ ' ' :: after)
    (hafter : ∀ c ∈ after.head?, isWordChar c = true)
    (hnext : next (place.past (ellipsis isVariadic) (' ' :: after)) = some found) :
    (opt (all [spaces, exactly "..."])).run place next = some found := by
  cases isVariadic with
  | false =>
      have hstop : (place.rest.dropWhile isBlank).head? ≠ some '.' := by
        rw [h, ellipsis, if_neg (by decide), List.nil_append, dropWhile_space hafter]
        intro hhead
        exact absurd (hafter '.' hhead) (by decide)
      have hnone : ∀ mid, ¬ mid ∈ (all [spaces, exactly "..."]).reached place :=
        (Opens.exactly rfl).not_mem_spaces (by decide) hstop
      have hsame : place.past (ellipsis false) (' ' :: after) = place := Place.past_nil h
      rw [run_opt_of_none (run_eq_none hnone), ← hsame]
      exact hnext
  | true =>
      have hrest : place.rest = "...".toList ++ ' ' :: after := h
      refine run_opt_of_some ?_
      rw [run_all_cons, run_spaces_of_stop (by rw [h]; exact forall_head?_cons (by decide) _),
        run_all_cons, run_exactly hrest, run_all_nil]
      exact hnext

/-- In front of a space and a name a type has come to its end. -/
theorem run_typeEnd {n : Nat} {isVariadic : Bool} {after : Text}
    (h : place.rest = squares n ++ (ellipsis isVariadic ++ ' ' :: after))
    (hafter : ∀ c ∈ after.head?, isWordChar c = true)
    (hnext : next (place.past (squares n ++ ellipsis isVariadic) (' ' :: after)) = some found) :
    typeEnd.run place next = some found := by
  have hstop : ((ellipsis isVariadic ++ ' ' :: after).dropWhile isBlank).head? ≠ some '[' := by
    cases isVariadic with
    | false =>
        rw [ellipsis, if_neg (by decide), List.nil_append, dropWhile_space hafter]
        intro hhead
        exact absurd (hafter '[' hhead) (by decide)
    | true => exact ne_of_beq_false rfl
  unfold typeEnd
  rw [run_all_cons]
  refine run_star (repeats_square h) ((Opens.lit '[').not_mem_spaces (by decide) hstop) ?_
  rw [run_all_cons]
  refine run_ellipsis (Place.rest_past _ _ _) hafter ?_
  rw [Place.past_past, run_all_nil, hnext]

/-! ### Closing brackets inside of a type -/

/-- Square brackets, and then neither a blank nor a dot. -/
def Sealed (text : Text) : Prop :=
  ∃ n c rest, text = squares n ++ c :: rest ∧ isBlank c = false ∧ c ≠ '[' ∧ c ≠ '.'

namespace Sealed

variable {text : Text}

theorem of_cons {c : Char} (hblank : isBlank c = false) (hsquare : c ≠ '[') (hdot : c ≠ '.')
    (rest : Text) : Sealed (c :: rest) := ⟨0, c, rest, rfl, hblank, hsquare, hdot⟩

theorem squares_append (n : Nat) (h : Sealed text) : Sealed (squares n ++ text) := by
  obtain ⟨m, c, rest, rfl, hc⟩ := h
  refine ⟨n + m, c, rest, ?_, hc⟩
  induction n with
  | zero => rw [Nat.zero_add, squares, List.nil_append]
  | succ n ih =>
      rw [Nat.succ_add, squares_succ, squares_succ, List.cons_append, List.cons_append, ih]
      rfl

theorem head? (h : Sealed text) : ∀ c ∈ text.head?, isBlank c = false ∧ c ≠ '.' := by
  obtain ⟨n, c, rest, rfl, hblank, -, hdot⟩ := h
  intro d hd
  cases n with
  | zero =>
      obtain rfl : c = d := by simpa [squares] using hd
      exact ⟨hblank, hdot⟩
  | succ n =>
      obtain rfl : '[' = d := by simpa [squares] using hd
      decide

/-- What follows a pair of square brackets is still sealed. -/
theorem of_square {mid : Place Slot} (h : Sealed place.rest) (hmid : mid ∈ square.reached place) :
    Sealed mid.rest := by
  obtain ⟨n, c, rest, hrest, hblank, hsquare, hdot⟩ := h
  cases n with
  | zero =>
      have hstop : (place.rest.dropWhile isBlank).head? ≠ some '[' := by
        rw [hrest, squares, List.nil_append, List.dropWhile_cons_of_neg (by simp [hblank])]
        simpa using hsquare
      exact absurd hmid ((Opens.lit '[').not_mem_spaces (by decide) hstop mid)
  | succ n =>
      obtain rfl := eq_of_mem_reached (fun next => run_square hrest) hmid
      exact ⟨n, c, rest, rfl, hblank, hsquare, hdot⟩

/-- A type that has come to such a place is not at its end. -/
theorem run_typeEnd (h : Sealed place.rest)
    (hnext : ∀ mid : Place Slot, (∀ c ∈ mid.rest.head?, isBlank c = false) → next mid = none) :
    typeEnd.run place next = none := by
  refine run_eq_none_iff.mpr fun mid hmid => hnext mid fun c hc => ?_
  obtain ⟨mid', hstar, hmid⟩ := mem_reached_all_cons.mp hmid
  have hsealed : Sealed mid'.rest :=
    of_mem_iterated (fun here mid hhere hmid => of_square hhere hmid) _ h hstar
  have hdots : ∀ mid, ¬ mid ∈ (all [spaces, exactly "..."]).reached mid' := by
    refine (Opens.exactly rfl).not_mem_spaces (by decide) fun hhead => ?_
    have hdrop : mid'.rest.dropWhile isBlank = mid'.rest :=
      Text.dropStart_eq_self fun d hd => (hsealed.head? d hd).1
    rw [hdrop] at hhead
    exact (hsealed.head? '.' hhead).2 rfl
  rcases mem_reached_opt.mp hmid with hmid | rfl
  · exact absurd hmid (hdots mid)
  · exact (hsealed.head? c hc).1

end Sealed

/-- Behind a closing bracket inside of type arguments the text is sealed. -/
theorem IsQualifiedList.sealed {text near far after : Text} (h : IsQualifiedList text)
    (hafter : Sealed after) (hsplit : text = near ++ '>' :: far) : Sealed (far ++ after) := by
  have hsquares : ∀ n, '>' ∉ squares n := by
    intro n hmem
    rcases mem_squares hmem with hopen | hclose
    · exact absurd hopen (by decide)
    · exact absurd hclose (by decide)
  induction h generalizing near far after with
  | plain dimensions isName =>
      have hmem : '>' ∈ near ++ '>' :: far := by simp
      rw [← hsplit] at hmem
      rcases List.mem_append.mp hmem with hmem | hmem
      · exact absurd hmem (isName.not_mem (by decide))
      · exact absurd hmem (hsquares dimensions)
  | @generic name arguments dimensions isName _ ih =>
      rcases append_eq_append_cons hsplit with ⟨middle, hname, -⟩ | ⟨middle, -, hbehind⟩
      · exact absurd (by simp [hname]) (isName.not_mem (c := '>') (by decide))
      · cases middle with
        | nil => exact absurd (List.cons.inj hbehind).1 (by decide)
        | cons d middle =>
            have hinside := (List.cons.inj hbehind).2
            rcases append_eq_append_cons hinside with ⟨front, harguments, rfl⟩ | ⟨front, -, hclose⟩
            · have hsealed : Sealed ('>' :: (squares dimensions ++ after)) :=
                .of_cons (by decide) (by decide) (by decide) _
              simpa using ih hsealed harguments
            · cases front with
              | nil =>
                  obtain ⟨-, rfl⟩ := List.cons.inj hclose
                  exact hafter.squares_append dimensions
              | cons e front =>
                  have hmem : '>' ∈ squares dimensions := by simp [(List.cons.inj hclose).2]
                  exact absurd hmem (hsquares dimensions)
  | @append first others _ _ ihFirst ih =>
      rcases append_eq_append_cons hsplit with ⟨middle, hfirst, rfl⟩ | ⟨middle, -, hothers⟩
      · have hsealed : Sealed (separator ++ (others ++ after)) :=
          .of_cons (by decide) (by decide) (by decide) _
        simpa using ihFirst hsealed hfirst
      · rcases append_eq_append_cons hothers with ⟨middle', hseparator, -⟩ | ⟨middle', -, hothers⟩
        · have hmem : '>' ∈ separator := by simp [hseparator]
          exact absurd hmem (by decide)
        · exact ih hafter hothers

/-! ### The whole type -/

theorem isTypeName_of_isDotted {c : Char} (h : Grammar.isDotted c = true) :
    Grammar.isTypeName c = true := by
  simp [Grammar.isTypeName, h]

theorem isTypeName_ellipsis (isVariadic : Bool) :
    ∀ c ∈ ellipsis isVariadic, Grammar.isTypeName c = true := by
  cases isVariadic with
  | false => exact List.forall_mem_nil _
  | true => exact List.all_eq_true.mp (by decide)

/-- Dots right behind a name are taken for a part of it, and dots behind square brackets are not. -/
theorem exists_name_split {name : Text} (h : IsQualifiedName name) (n : Nat) (isVariadic : Bool) :
    ∃ front m dots, name ++ (squares n ++ ellipsis isVariadic) = front ++
      (squares m ++ ellipsis dots) ∧
      front ≠ [] ∧ (∀ c ∈ front, Grammar.isTypeName c = true) ∧ (m = 0 → dots = false) := by
  have hname : ∀ c ∈ name, Grammar.isTypeName c = true :=
    fun c hc => isTypeName_of_isDotted (h.isDotted c hc)
  cases n with
  | zero =>
      refine ⟨name ++ ellipsis isVariadic, 0, false, by simp [squares, ellipsis],
        by simp [h.ne_nil],
        List.forall_mem_append.mpr ⟨hname, isTypeName_ellipsis isVariadic⟩, fun _ => rfl⟩
  | succ n =>
      exact ⟨name, n + 1, isVariadic, rfl, h.ne_nil, hname, fun hzero => absurd hzero (by omega)⟩

/-- Behind the name of a type without arguments come square brackets, or the space in front of a
name. -/
theorem head?_typeEnd {m : Nat} {dots : Bool} (h : m = 0 → dots = false) (after : Text) :
    squares m ++ (ellipsis dots ++ ' ' :: after) = ' ' :: after ∨
      (squares m ++ (ellipsis dots ++ ' ' :: after)).head? = some '[' := by
  cases m with
  | zero => exact .inl (by rw [h rfl]; rfl)
  | succ m => exact .inr rfl

/-- A type without arguments is matched whole. -/
theorem run_bareType {name after : Text} (h : IsQualifiedName name) (dimensions : Nat)
    (isVariadic : Bool)
    (hrest : place.rest = name ++ (squares dimensions ++ (ellipsis isVariadic ++ ' ' :: after)))
    (hafter : ∀ c ∈ after.head?, isWordChar c = true)
    (hnext : next (place.past (name ++ (squares dimensions ++ ellipsis isVariadic)) (' ' :: after))
      = some found) :
    Grammar.type.run place next = some found := by
  show (all [atLeastOne Grammar.isTypeName,
    opt (all [spaces, lit '<', many .lazy Grammar.isTypeArgument, lit '>']), star square,
    opt (all [spaces, exactly "..."])]).run place next = some found
  obtain ⟨front, m, dots, hsplit, hne, hfront, hdots⟩ := exists_name_split h dimensions isVariadic
  have hplace : place.rest = front ++ (squares m ++ (ellipsis dots ++ ' ' :: after)) := by
    rw [hrest]
    simpa using congrArg (· ++ ' ' :: after) hsplit
  rw [hsplit] at hnext
  have hname : ∀ c ∈ (squares m ++ (ellipsis dots ++ ' ' :: after)).head?,
      Grammar.isTypeName c = false := by
    intro c hc
    rcases head?_typeEnd hdots after with hspace | hsquare
    · rw [hspace] at hc
      obtain rfl : ' ' = c := Option.some.inj hc
      decide
    · obtain rfl : '[' = c := Option.some.inj (hsquare.symm.trans hc)
      decide
  have hangle : ((squares m ++ (ellipsis dots ++ ' ' :: after)).dropWhile isBlank).head?
      ≠ some '<' := by
    intro hhead
    rcases head?_typeEnd hdots after with hspace | hsquare
    · rw [hspace, dropWhile_space hafter] at hhead
      exact absurd (hafter '<' hhead) (by decide)
    · obtain ⟨rest, hrest'⟩ := List.head?_eq_some_iff.mp hsquare
      rw [hrest', List.dropWhile_cons_of_neg (by decide)] at hhead
      exact absurd (Option.some.inj hhead) (by decide)
  have hnone : ∀ mid, ¬ mid ∈ (all [spaces, lit '<', many .lazy Grammar.isTypeArgument,
      lit '>']).reached (place.past front (squares m ++ (ellipsis dots ++ ' ' :: after))) :=
    (Opens.lit '<').not_mem_spaces (by decide) hangle
  rw [run_all_cons]
  refine run_atLeastOne hplace hne hfront hname ?_
  rw [run_all_cons, run_opt_of_none (run_eq_none hnone)]
  refine run_typeEnd (Place.rest_past _ _ _) hafter ?_
  rw [Place.past_past]
  exact hnext

/-- So is a type with arguments, if the rest of the pattern wants a blank behind it. -/
theorem run_genericType {name arguments after : Text} (h : IsQualifiedName name)
    (harguments : IsQualifiedList arguments) (dimensions : Nat) (isVariadic : Bool)
    (hrest : place.rest = name ++ '<' :: (arguments ++ '>' ::
      (squares dimensions ++ (ellipsis isVariadic ++ ' ' :: after))))
    (hafter : ∀ c ∈ after.head?, isWordChar c = true)
    (hblank : ∀ mid : Place Slot, (∀ c ∈ mid.rest.head?, isBlank c = false) → next mid = none)
    (hnext : next (place.past (name ++ '<' :: (arguments ++ '>' ::
      (squares dimensions ++ ellipsis isVariadic))) (' ' :: after)) = some found) :
    Grammar.type.run place next = some found := by
  show (all [atLeastOne Grammar.isTypeName,
    opt (all [spaces, lit '<', many .lazy Grammar.isTypeArgument, lit '>']), star square,
    opt (all [spaces, exactly "..."])]).run place next = some found
  rw [run_all_cons]
  refine run_atLeastOne hrest h.ne_nil
    (fun c hc => isTypeName_of_isDotted (h.isDotted c hc)) (forall_head?_cons (by decide) _) ?_
  rw [run_all_cons]
  refine run_opt_of_some ?_
  rw [run_all_cons, run_spaces_of_stop (forall_head?_cons (by decide) _), run_all_cons,
    run_lit rfl, run_all_cons]
  refine run_many_lazy rfl harguments.isTypeArgument ?_ ?_
  · intro near far hsplit hfar
    obtain ⟨c, far, rfl⟩ := List.exists_cons_of_ne_nil hfar
    by_cases hc : c = '>'
    · subst hc
      have hsealed : Sealed
          ('>' :: (squares dimensions ++ (ellipsis isVariadic ++ ' ' :: after))) :=
        .of_cons (by decide) (by decide) (by decide) _
      rw [run_all_cons, run_lit rfl, run_all_nil]
      exact (harguments.sealed hsealed hsplit).run_typeEnd hblank
    · rw [run_all_cons, run_lit_of_ne rfl hc]
  · rw [run_all_cons, run_lit rfl, run_all_nil]
    refine run_typeEnd (Place.rest_past _ _ _) hafter ?_
    rw [Place.past_past, Place.past_past, Place.past_past, Place.past_past]
    simpa using hnext

/-- A type is matched whole, with the dots behind it, if the rest of the pattern wants a blank
behind it. -/
theorem run_type {type : MemberType} {isVariadic : Bool} {after : Text} (h : type.Qualified)
    (hrest : place.rest = type.text ++ (ellipsis isVariadic ++ ' ' :: after))
    (hafter : ∀ c ∈ after.head?, isWordChar c = true)
    (hblank : ∀ mid : Place Slot, (∀ c ∈ mid.rest.head?, isBlank c = false) → next mid = none)
    (hnext : next (place.past (type.text ++ ellipsis isVariadic) (' ' :: after)) = some found) :
    Grammar.type.run place next = some found := by
  obtain ⟨⟨name, arguments⟩, dimensions⟩ := type
  cases arguments with
  | none =>
      refine run_bareType h.name dimensions isVariadic ?_ hafter ?_
      · simpa [MemberType.text, TypeName.text] using hrest
      · simpa [MemberType.text, TypeName.text] using hnext
  | some arguments =>
      refine run_genericType h.name (h.arguments arguments rfl) dimensions isVariadic ?_
        hafter hblank ?_
      · simpa [MemberType.text, TypeName.text] using hrest
      · simpa [MemberType.text, TypeName.text] using hnext

/-! ### Types with dots -/

/-- The text of a type, or of one for any number of arguments. -/
def IsTypeText (text : Text) : Prop :=
  ∃ type : MemberType, type.Qualified ∧ ∃ isVariadic, text = type.text ++ ellipsis isVariadic

theorem MemberType.Qualified.isTypeText {type : MemberType} (h : type.Qualified) :
    IsTypeText type.text := ⟨type, h, false, by simp [ellipsis]⟩

namespace IsTypeText

variable {text after : Text}

theorem run_type (h : IsTypeText text) (hrest : place.rest = text ++ ' ' :: after)
    (hafter : ∀ c ∈ after.head?, isWordChar c = true)
    (hblank : ∀ mid : Place Slot, (∀ c ∈ mid.rest.head?, isBlank c = false) → next mid = none)
    (hnext : next (place.past text (' ' :: after)) = some found) :
    Grammar.type.run place next = some found := by
  obtain ⟨type, htype, isVariadic, rfl⟩ := h
  rw [List.append_assoc] at hrest
  exact Written.run_type htype hrest hafter hblank hnext

theorem head? (h : IsTypeText text) (rest : Text) :
    ∀ c ∈ (text ++ rest).head?, isWordChar c = true := by
  obtain ⟨type, htype, isVariadic, rfl⟩ := h
  rw [MemberType.text, TypeName.text, List.append_assoc, List.append_assoc, List.append_assoc]
  exact htype.name.head? _

theorem isTypeArgument (h : IsTypeText text) : ∀ c ∈ text, Grammar.isTypeArgument c = true := by
  obtain ⟨type, htype, isVariadic, rfl⟩ := h
  refine List.forall_mem_append.mpr ⟨htype.isQualifiedList.isTypeArgument, fun c hc => ?_⟩
  have hname := isTypeName_ellipsis isVariadic c hc
  simp [Grammar.isTypeArgument, hname]

theorem avoids (h : IsTypeText text) : Avoids memberKeywords text := by
  obtain ⟨type, htype, isVariadic, rfl⟩ := h
  have htext := htype.isQualifiedList.avoids
  cases isVariadic with
  | false => simpa [ellipsis] using htext
  | true =>
      exact htext.append_cons (by decide) (.cons memberKeywords_ne_nil (by decide)
        (.cons memberKeywords_ne_nil (by decide) (.nil memberKeywords_ne_nil)))

/-- A type is in its normal spelling. -/
theorem normalizeType_eq_self (h : IsTypeText text) : normalizeType text = text := by
  obtain ⟨type, htype, isVariadic, rfl⟩ := h
  have htext := htype.isQualifiedList.commaSpaced
  cases isVariadic with
  | false =>
      have hsame : type.text ++ ellipsis false = type.text := List.append_nil _
      rw [hsame, htext.normalizeType_eq_self]
  | true =>
      have hdots : CommaSpaced (ellipsis true) :=
        .word (by decide) (List.all_iff_forall_prop.mp (by decide))
      exact (htext.adjacent hdots).normalizeType_eq_self

end IsTypeText

end Diagrams.Code.Written
