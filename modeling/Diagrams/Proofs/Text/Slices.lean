/-
Where a text is cut.

A scan that cuts a text gives its pieces.  The same is told by the places of the cuts: the pieces
are the stretches of the text between them (`piecesBy_eq_slices`), so there is one piece more than
there are cuts, and the last one is what stands behind the last cut.  Two scans that cut at the
same places give the same pieces.
-/
import Diagrams.Proofs.Text.Cutting

namespace Diagrams.Text

/-- The stretches of a text from `start` on, between the given places. -/
def slices (text : Text) : (start : Nat) → (places : List Nat) → List Text
  | start, [] => [text.drop start]
  | start, place :: places => (text.take place).drop start :: slices text (place + 1) places

/-- Where the last stretch starts. -/
def lastStart (start : Nat) (places : List Nat) : Nat := (places.getLast?.map (· + 1)).getD start

@[simp] theorem length_slices (text : Text) (start : Nat) (places : List Nat) :
    (text.slices start places).length = places.length + 1 := by
  induction places generalizing start with
  | nil => rfl
  | cons place places ih => simp [slices, ih]

theorem getLast?_slices (text : Text) (start : Nat) (places : List Nat) :
    (text.slices start places).getLast? = some (text.drop (lastStart start places)) := by
  induction places generalizing start with
  | nil => rfl
  | cons place places ih =>
      have hrest := ih (place + 1)
      cases places with
      | nil => rfl
      | cons next places =>
          have hstart : lastStart start (place :: next :: places)
              = lastStart (place + 1) (next :: places) := by
            unfold lastStart
            rw [List.getLast?_cons_cons, List.getLast?_cons]
            rfl
          rw [slices, slices, List.getLast?_cons_cons, ← slices, hrest, hstart]

/-- One more character in front moves all places. -/
theorem slices_cons_succ (c : Char) (text : Text) (start : Nat) (places : List Nat) :
    slices (c :: text) (start + 1) (places.map (· + 1)) = text.slices start places := by
  induction places generalizing start with
  | nil => rfl
  | cons place places ih =>
      rw [List.map_cons, slices, slices, ih]
      rfl

theorem slices_cons (c : Char) (text : Text) (places : List Nat) :
    slices (c :: text) 0 (places.map (· + 1)) = prepended [c] (text.slices 0 places) := by
  cases places with
  | nil => rfl
  | cons place places =>
      rw [List.map_cons, slices, slices, slices_cons_succ]
      rfl

variable {σ : Type} (step : σ → Char → σ) (isCut : σ → Char → Bool)

/-- Whether a scan cuts a text at a place. -/
def cutsAt (state : σ) (text : Text) (place : Nat) : Bool :=
  text[place]?.any (isCut ((text.take (place + 1)).foldl step state))

/-- The places where a scan cuts a text. -/
def cuts (state : σ) (text : Text) : List Nat :=
  (List.range text.length).filter (cutsAt step isCut state text)

variable {step isCut} {state : σ}

theorem cuts_cons (c : Char) (text : Text) :
    cuts step isCut state (c :: text)
      = (if isCut (step state c) c then [0] else [])
        ++ (cuts step isCut (step state c) text).map (· + 1) := by
  have hzero : cutsAt step isCut state (c :: text) 0 = isCut (step state c) c := rfl
  have hsucc : cutsAt step isCut state (c :: text) ∘ Nat.succ
      = cutsAt step isCut (step state c) text := by
    funext place
    simp [cutsAt]
  unfold cuts
  rw [List.length_cons, List.range_succ_eq_map, List.filter_cons, List.filter_map, hzero, hsucc]
  split <;> rfl

theorem cuts_append (front rest : Text) :
    cuts step isCut state (front ++ rest)
      = cuts step isCut state front
        ++ (cuts step isCut (front.foldl step state) rest).map (· + front.length) := by
  induction front generalizing state with
  | nil => simp [cuts]
  | cons c front ih =>
      rw [List.cons_append, cuts_cons, cuts_cons, ih, List.map_append, List.map_map,
        List.append_assoc]
      congr 2

/-- The pieces of a text are the stretches between the places where the scan cuts it. -/
theorem piecesBy_eq_slices (state : σ) (text : Text) :
    piecesBy step isCut state text = text.slices 0 (cuts step isCut state text) := by
  induction text generalizing state with
  | nil => rfl
  | cons c text ih =>
      rw [cuts_cons]
      cases hcut : isCut (step state c) c with
      | true =>
          rw [piecesBy_cons_of_cut hcut, ih, if_pos rfl, List.singleton_append, slices,
            slices_cons_succ]
          rfl
      | false =>
          rw [piecesBy_cons_of_keep hcut, ih, if_neg Bool.false_ne_true,
            List.nil_append, slices_cons]

/-- The last piece of a text goes on with the first piece of what follows. -/
theorem piecesBy_append (state : σ) (front rest : Text) :
    piecesBy step isCut state (front ++ rest)
      = (piecesBy step isCut state front).dropLast ++
        prepended ((piecesBy step isCut state front).getLast?.getD [])
          (piecesBy step isCut (front.foldl step state) rest) := by
  induction front generalizing state with
  | nil => simp [piecesBy, prepended_nil_of_ne_nil (piecesBy_ne_nil state rest)]
  | cons c front ih =>
      obtain ⟨piece, others, hpieces⟩ := List.exists_cons_of_ne_nil
        (piecesBy_ne_nil (step state c) front : piecesBy step isCut (step state c) front ≠ [])
      rw [List.cons_append, List.foldl_cons]
      cases hcut : isCut (step state c) c with
      | true => simp [piecesBy_cons_of_cut hcut, ih, hpieces]
      | false =>
          rw [piecesBy_cons_of_keep hcut, piecesBy_cons_of_keep hcut, ih, hpieces]
          cases others with
          | nil => simp [prepended_prepended]
          | cons next others => simp

/-- A text that is not cut is its only piece. -/
theorem eq_of_piecesBy_singleton {state : σ} {text piece : Text}
    (h : piecesBy step isCut state text = [piece]) : piece = text := by
  induction text generalizing state piece with
  | nil => simpa [piecesBy, eq_comm] using h
  | cons c text ih =>
      obtain ⟨first, others, hpieces⟩ := List.exists_cons_of_ne_nil
        (piecesBy_ne_nil (step state c) text : piecesBy step isCut (step state c) text ≠ [])
      cases hcut : isCut (step state c) c with
      | true => simp [piecesBy_cons_of_cut hcut, hpieces] at h
      | false =>
          rw [piecesBy_cons_of_keep hcut, hpieces, prepended_cons, List.cons.injEq] at h
          obtain ⟨rfl, rfl⟩ := h
          rw [ih hpieces]
          rfl

/-- The last piece is the end of the text. -/
theorem getLast?_piecesBy_suffix (state : σ) (text : Text) :
    (piecesBy step isCut state text).getLast?.getD [] <:+ text := by
  induction text generalizing state with
  | nil => exact List.suffix_refl _
  | cons c text ih =>
      have hlast := ih (step state c)
      obtain ⟨first, others, hpieces⟩ := List.exists_cons_of_ne_nil
        (piecesBy_ne_nil (step state c) text : piecesBy step isCut (step state c) text ≠ [])
      rw [hpieces] at hlast
      cases hcut : isCut (step state c) c with
      | true =>
          rw [piecesBy_cons_of_cut hcut, hpieces, List.getLast?_cons_cons]
          exact hlast.trans (List.suffix_cons c text)
      | false =>
          rw [piecesBy_cons_of_keep hcut, hpieces, prepended_cons]
          cases others with
          | nil =>
              obtain rfl := eq_of_piecesBy_singleton hpieces
              exact List.suffix_refl _
          | cons next others =>
              rw [List.getLast?_cons_cons] at hlast ⊢
              exact hlast.trans (List.suffix_cons c text)

/-- A text that is cut nowhere is its only piece. -/
theorem piecesBy_of_uncut {text : Text} (h : cuts step isCut state text = []) :
    piecesBy step isCut state text = [text] := by
  rw [piecesBy_eq_slices, h]
  rfl

end Diagrams.Text
