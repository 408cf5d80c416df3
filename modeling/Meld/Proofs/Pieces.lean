import Meld.Proofs.Spelling

namespace Meld.Snapshot

/-! What the parts of a graph are written as. -/

variable {α : Type}

def listPieces (pieces : α → List Piece) (xs : List α) : List Piece :=
  .number xs.length :: xs.flatMap pieces

def textPieces (cs : List Char) : List Piece :=
  .number (Text.encodeUtf8 cs).length :: (Text.encodeUtf8 cs).map .byte

def componentPieces (c : Component) : List Piece := [.number c.shape.index, .number c.size.toNat]

def phasePieces : Phase → List Piece
  | .unsized shape => [.number 0, .number shape.index]
  | .sized components => .number 1 :: listPieces componentPieces components

def idPieces (id : StateId) : List Piece := [.number id.toNat]

def guardPieces (g : Guard) : List Piece :=
  .number g.index ::
    match g with
    | .card c => textPieces c.chars
    | .rank r => [.number r.index]
    | .color c => [.number c.index]
    | _ => []

def transitionPieces (t : Transition) : List Piece := guardPieces t.guard ++ idPieces t.target

def statePieces (s : State) : List Piece :=
  .byte (if s.isFinal then 1 else 0) :: listPieces transitionPieces s.transitions

def pieces (a : Automaton) : List Piece :=
  phasePieces a.phase ++ listPieces statePieces a.states.toList ++ idPieces a.start
    ++ listPieces idPieces a.finals

/-! What is written is written piece by piece. -/

theorem writeList_eq {write : α → List UInt8} {pieces : α → List Piece}
    (h : ∀ x, (pieces x).flatMap Piece.write = write x) (xs : List α) :
    (listPieces pieces xs).flatMap Piece.write = writeList write xs := by
  rw [listPieces, List.flatMap_cons, List.flatMap_assoc, funext h]
  rfl

theorem writeText_eq (cs : List Char) : (textPieces cs).flatMap Piece.write = writeText cs := by
  rw [textPieces, List.flatMap_cons, List.flatMap_map]
  exact congrArg _ (List.flatMap_singleton' _)

theorem writeComponent_eq (c : Component) :
    (componentPieces c).flatMap Piece.write = writeComponent c := by
  simp only [componentPieces, List.flatMap_cons, List.flatMap_nil, List.append_nil]
  rfl

theorem writePhase_eq (p : Phase) : (phasePieces p).flatMap Piece.write = writePhase p := by
  cases p with
  | unsized shape =>
    simp only [phasePieces, List.flatMap_cons, List.flatMap_nil, List.append_nil]
    rfl
  | sized components =>
    rw [phasePieces, List.flatMap_cons, writeList_eq writeComponent_eq]
    rfl

theorem writeId_eq (id : StateId) : (idPieces id).flatMap Piece.write = writeId id :=
  List.append_nil _

theorem writeGuard_eq (g : Guard) : (guardPieces g).flatMap Piece.write = writeGuard g := by
  unfold guardPieces writeGuard
  rw [List.flatMap_cons]
  cases g with
  | card c => exact congrArg _ (writeText_eq c.chars)
  | rank r => exact congrArg _ (List.append_nil _)
  | color k => exact congrArg _ (List.append_nil _)
  | epsilon | otherwise => rfl

theorem writeTransition_eq (t : Transition) :
    (transitionPieces t).flatMap Piece.write = writeTransition t := by
  rw [transitionPieces, List.flatMap_append, writeGuard_eq, writeId_eq, writeTransition]

theorem writeState_eq (s : State) : (statePieces s).flatMap Piece.write = writeState s := by
  rw [statePieces, List.flatMap_cons, writeList_eq writeTransition_eq]
  rfl

theorem write_eq (a : Automaton) : (pieces a).flatMap Piece.write = write a := by
  simp only [pieces, List.flatMap_append, writePhase_eq, writeList_eq writeState_eq, writeId_eq,
    writeList_eq writeId_eq, write]

end Meld.Snapshot
