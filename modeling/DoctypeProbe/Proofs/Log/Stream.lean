import DoctypeProbe.Log.Stream

/-!
# What a Message Stream Logs

The end markers cut the pieces put into a message stream into stretches. Put together stretch by
stretch, the pieces make up one message for each marker, and one more for what is behind the last
one; every piece has its part in one message then.

A message stream keeps what has been put together when a marker comes. So a marker logs whatever
is before it, also what another marker has logged, and what is behind the last marker is not logged.
The messages come out stretch by stretch exactly if only one stretch shows anything: the one that
ends with the last marker, or the only one, if there is no marker.

## Main results

* `Log.MessageStream.flatten_composed`: put together so, no piece is lost or repeated.
* `Log.MessageStream.getElem?_messagesFrom`: what a marker logs.
* `Log.MessageStream.messages_eq_composed_iff`: when the messages come out stretch by stretch.
-/

namespace DoctypeProbe

namespace Log

/-- The text of pieces, in order. -/
def textOf (pieces : List Piece) : Bytes := pieces.flatMap Piece.shown

theorem textOf_cons (piece : Piece) (pieces : List Piece) :
    textOf (piece :: pieces) = piece.shown ++ textOf pieces := List.flatMap_cons

theorem textOf_append (front back : List Piece) :
    textOf (front ++ back) = textOf front ++ textOf back := List.flatMap_append

/-- The marker itself shows nothing. -/
theorem textOf_marker (pieces : List Piece) : textOf (.endMarker :: pieces) = textOf pieces := rfl

namespace MessageStream

variable {pieces front back : List Piece}

/-! ### Stretch by stretch -/

/-- The stretches of pieces between end markers: one more than there are markers. -/
def stretches (pieces : List Piece) : List (List Piece) := pieces.splitOnP (· == .endMarker)

/-- The messages that pieces make up stretch by stretch: one for each marker, and one for the
stretch behind the last marker unless it is empty. -/
def composed (pieces : List Piece) : List Bytes :=
  let texts := (stretches pieces).map textOf
  texts.dropLast ++ texts.getLast?.toList.filter (!·.isEmpty)

theorem composed_of_not_mem (h : .endMarker ∉ pieces) :
    composed pieces = if textOf pieces = [] then [] else [textOf pieces] := by
  have hone : stretches pieces = [pieces] :=
    List.splitOnP_eq_singleton fun _ hmem => beq_false_of_ne (ne_of_mem_of_not_mem hmem h)
  rw [composed, hone]
  cases htext : textOf pieces <;> simp [htext]

/-- The first marker ends the first message. -/
theorem composed_append (h : .endMarker ∉ front) (back : List Piece) :
    composed (front ++ .endMarker :: back) = textOf front :: composed back := by
  have hfirst : stretches (front ++ .endMarker :: back) = front :: stretches back :=
    List.splitOnP_append_cons_of_forall_mem
      (fun _ hmem => beq_false_of_ne (ne_of_mem_of_not_mem hmem h)) _ rfl back
  have hne : (stretches back).map textOf ≠ [] :=
    mt List.map_eq_nil_iff.mp (List.splitOnP_ne_nil _ back)
  rw [composed, composed, hfirst, List.map_cons, List.dropLast_cons_of_ne_nil hne,
    List.getLast?_cons_of_ne_nil hne, List.cons_append]

/-- Induction from one marker to the next: behind the last marker there is none, and before the
first one there is none either. -/
@[elab_as_elim]
theorem cut_induction {motive : List Piece → Prop}
    (last : ∀ pieces, .endMarker ∉ pieces → motive pieces)
    (cut : ∀ front back, .endMarker ∉ front → motive back → motive (front ++ .endMarker :: back))
    (pieces : List Piece) : motive pieces := by
  induction hn : pieces.length using Nat.strongRecOn generalizing pieces with
  | ind n ih =>
      by_cases hmem : .endMarker ∈ pieces
      · obtain ⟨front, back, rfl, hfront⟩ := List.eq_append_cons_of_mem hmem
        have hlt : back.length < n := by
          rw [← hn, List.length_append, List.length_cons]
          omega
        exact cut front back hfront (ih _ hlt back rfl)
      · exact last pieces hmem

/-- **Put together stretch by stretch**, no piece is lost or repeated. -/
theorem flatten_composed (pieces : List Piece) : (composed pieces).flatten = textOf pieces := by
  induction pieces using cut_induction with
  | last pieces hnone =>
      rw [composed_of_not_mem hnone]
      split <;> simp_all
  | cut front back hfront ih =>
      rw [composed_append hfront, List.flatten_cons, ih, textOf_append, textOf_marker]

/-! ### As the stream does it -/

/-- Pieces without a marker are kept, behind what is there. -/
theorem messagesFrom_append (h : .endMarker ∉ front) (m : MessageStream) (back : List Piece) :
    messagesFrom m (front ++ back) =
      messagesFrom ⟨m.gathered ++ textOf front, m.isFlushed⟩ back := by
  induction front generalizing m with
  | nil => rw [textOf, List.flatMap_nil, List.append_nil, List.nil_append]
  | cons piece front ih =>
      obtain ⟨hpiece, hfront⟩ := not_or.mp (mt List.mem_cons.mpr h)
      rw [List.cons_append, messagesFrom, if_neg (Ne.symm hpiece), ih hfront, insert, textOf_cons,
        List.append_assoc]

/-- Without a marker, nothing is logged before the end. -/
theorem messagesFrom_of_not_mem (h : .endMarker ∉ pieces) (m : MessageStream) :
    messagesFrom m pieces = atEnd ⟨m.gathered ++ textOf pieces, m.isFlushed⟩ := by
  rw [← messagesFrom, ← messagesFrom_append h, List.append_nil]

/-- The first marker logs what is before it, and leaves it there. -/
theorem messagesFrom_cut (h : .endMarker ∉ front) (m : MessageStream) (back : List Piece) :
    messagesFrom m (front ++ .endMarker :: back) =
      (m.gathered ++ textOf front) :: messagesFrom ⟨m.gathered ++ textOf front, true⟩ back := by
  rw [messagesFrom_append h, messagesFrom, if_pos rfl, flush]

/-- **A marker logs everything before it.** -/
theorem getElem?_messagesFrom (m : MessageStream) (before after : List Piece) :
    (messagesFrom m (before ++ .endMarker :: after))[before.count .endMarker]? =
      some (m.gathered ++ textOf before) := by
  induction before generalizing m with
  | nil => rw [textOf, List.flatMap_nil, List.append_nil]; rfl
  | cons piece before ih =>
      rw [List.cons_append, messagesFrom]
      by_cases hpiece : piece = .endMarker
      · subst hpiece
        rw [if_pos rfl, List.count_cons_self, List.getElem?_cons_succ, ih, textOf_marker, flush]
      · rw [if_neg hpiece, List.count_cons_of_ne hpiece, ih, insert, textOf_cons,
          List.append_assoc]

/-- Behind a marker, there is one message for each marker. -/
theorem length_messagesFrom (gathered : Bytes) (pieces : List Piece) :
    (messagesFrom ⟨gathered, true⟩ pieces).length = pieces.count .endMarker := by
  induction pieces generalizing gathered with
  | nil => rfl
  | cons piece pieces ih =>
      rw [messagesFrom]
      by_cases hpiece : piece = .endMarker
      · subst hpiece
        rw [if_pos rfl, List.length_cons, List.count_cons_self]
        exact congrArg (· + 1) (ih gathered)
      · rw [if_neg hpiece, List.count_cons_of_ne hpiece]
        exact ih _

/-- A stream that has a marker has one message for each. -/
theorem length_messages (h : .endMarker ∈ pieces) :
    (messages pieces).length = pieces.count .endMarker := by
  obtain ⟨front, back, rfl, hfront⟩ := List.eq_append_cons_of_mem h
  rw [messages, messagesFrom_cut hfront, List.length_cons, length_messagesFrom, List.count_append,
    List.count_eq_zero.mpr hfront, List.count_cons_self, Nat.zero_add]

/-! ### When the messages come out stretch by stretch -/

/-- Nothing is shown before a marker that another one comes behind, and nothing behind the last
marker. -/
def Separate (pieces : List Piece) : Prop :=
  ∀ before after, pieces = before ++ .endMarker :: after →
    if .endMarker ∈ after then textOf before = [] else textOf after = []

/-- What is behind a marker does not mix with what has been gathered before it. -/
def Behind (gathered : Bytes) (pieces : List Piece) : Prop :=
  if .endMarker ∈ pieces then gathered = [] ∧ Separate pieces else textOf pieces = []

theorem behind_of_not_mem {gathered : Bytes} (h : .endMarker ∉ pieces) :
    Behind gathered pieces ↔ textOf pieces = [] := by rw [Behind, if_neg h]

theorem behind_append {gathered : Bytes} (front back : List Piece) :
    Behind gathered (front ++ .endMarker :: back) ↔
      gathered = [] ∧ Separate (front ++ .endMarker :: back) := by
  rw [Behind, if_pos (List.mem_append_right _ List.mem_cons_self)]

/-- A cut at a marker is at the first one, or behind it. -/
theorem cut_eq_or_behind (h : .endMarker ∉ front) {before after : List Piece}
    (heq : front ++ .endMarker :: back = before ++ .endMarker :: after) :
    (before = front ∧ after = back) ∨
      ∃ middle, before = front ++ .endMarker :: middle ∧ back = middle ++ .endMarker :: after := by
  rcases List.append_eq_append_iff.mp heq with ⟨middle, rfl, hback⟩ | ⟨middle, rfl, hafter⟩
  · cases middle with
    | nil =>
        obtain ⟨-, rfl⟩ := List.cons.inj hback
        exact .inl ⟨List.append_nil _, rfl⟩
    | cons piece middle =>
        obtain ⟨rfl, rfl⟩ := List.cons.inj hback
        exact .inr ⟨middle, rfl, rfl⟩
  · cases middle with
    | nil =>
        obtain ⟨-, rfl⟩ := List.cons.inj hafter
        exact .inl ⟨(List.append_nil _).symm, rfl⟩
    | cons piece middle =>
        obtain ⟨rfl, -⟩ := List.cons.inj hafter
        exact absurd (List.mem_append_right _ List.mem_cons_self) h

/-- The first marker parts the pieces. -/
theorem separate_append (h : .endMarker ∉ front) :
    Separate (front ++ .endMarker :: back) ↔ Behind (textOf front) back := by
  by_cases hmem : .endMarker ∈ back
  · rw [Behind, if_pos hmem]
    constructor
    · intro hsep
      have hfront : textOf front = [] := by simpa [hmem] using hsep front back rfl
      refine ⟨hfront, ?_⟩
      rintro before after rfl
      have hcut := hsep (front ++ .endMarker :: before) after (by simp)
      rwa [textOf_append, hfront, List.nil_append, textOf_marker] at hcut
    · rintro ⟨hfront, hback⟩ before after heq
      rcases cut_eq_or_behind h heq with ⟨rfl, rfl⟩ | ⟨middle, rfl, rfl⟩
      · rwa [if_pos hmem]
      · rw [textOf_append, hfront, List.nil_append, textOf_marker]
        exact hback middle after rfl
  · rw [Behind, if_neg hmem]
    constructor
    · intro hsep
      simpa [hmem] using hsep front back rfl
    · intro hback before after heq
      rcases cut_eq_or_behind h heq with ⟨rfl, rfl⟩ | ⟨middle, rfl, rfl⟩
      · rwa [if_neg hmem]
      · exact absurd (List.mem_append_right _ List.mem_cons_self) hmem

/-- **Behind a marker**, the messages come out stretch by stretch if nothing has been gathered that
they would repeat. -/
theorem messagesFrom_eq_composed_iff (gathered : Bytes) (pieces : List Piece) :
    messagesFrom ⟨gathered, true⟩ pieces = composed pieces ↔ Behind gathered pieces := by
  induction pieces using cut_induction generalizing gathered with
  | last pieces hnone =>
      rw [behind_of_not_mem hnone, composed_of_not_mem hnone, messagesFrom_of_not_mem hnone]
      by_cases htext : textOf pieces = [] <;> simp [htext, atEnd]
  | cut front back hfront ih =>
      rw [behind_append, separate_append hfront, composed_append hfront, messagesFrom_cut hfront,
        List.cons.injEq]
      constructor
      · rintro ⟨hfirst, hrest⟩
        have hgathered : gathered = [] := List.append_left_eq_self.mp hfirst
        subst hgathered
        exact ⟨rfl, (ih _).mp hrest⟩
      · rintro ⟨rfl, hrest⟩
        exact ⟨rfl, (ih _).mpr hrest⟩

/-- A stream without a marker logs its pieces when it is given up. -/
theorem messages_of_not_mem (h : .endMarker ∉ pieces) : messages pieces = composed pieces := by
  rw [composed_of_not_mem h, messages, messagesFrom_of_not_mem h]
  by_cases htext : textOf pieces = [] <;> simp [htext, atEnd]

/-- **What a message stream logs**, whatever is put into it.

* Each marker logs everything before it.
* Where there are markers, there is one message for each and no other. Without one, there is one
  message unless the pieces show nothing.
* So the messages come out stretch by stretch exactly if nothing is shown before a marker that
  another one comes behind, and nothing behind the last one. -/
theorem messages_eq_composed_iff (pieces : List Piece) :
    (∀ before after, pieces = before ++ .endMarker :: after →
      (messages pieces)[before.count .endMarker]? = some (textOf before)) ∧
    ((messages pieces).length =
      if .endMarker ∈ pieces then pieces.count .endMarker
      else if textOf pieces = [] then 0 else 1) ∧
    (messages pieces = composed pieces ↔ Separate pieces) := by
  refine ⟨?_, ?_, ?_⟩
  · rintro before after rfl
    exact getElem?_messagesFrom {} before after
  · split
    · exact length_messages ‹_›
    · rw [messages_of_not_mem ‹_›, composed_of_not_mem ‹_›]
      split <;> rfl
  · induction pieces using cut_induction with
    | last pieces hnone =>
        refine iff_of_true (messages_of_not_mem hnone) ?_
        rintro before after rfl
        exact absurd (List.mem_append_right _ List.mem_cons_self) hnone
    | cut front back hfront =>
        rw [separate_append hfront, composed_append hfront, ← messagesFrom_eq_composed_iff,
          messages, messagesFrom_cut hfront, List.cons.injEq]
        exact and_iff_right rfl

/-- Two pieces with a marker between them. -/
def lateSample : List Piece := [.text (ascii "a"), .endMarker, .text (ascii "b")]

/-- The second one of them is lost, and with another marker behind it the first one is repeated. -/
theorem not_composed_lateSample :
    composed lateSample = [ascii "a", ascii "b"] ∧ messages lateSample = [ascii "a"] ∧
      composed (lateSample ++ [.endMarker]) = [ascii "a", ascii "b"] ∧
      messages (lateSample ++ [.endMarker]) = [ascii "a", ascii "ab"] := by decide

end MessageStream

end Log

end DoctypeProbe
