import ScriptEngine.Proofs.Arena.Unfolding
import ScriptEngine.Proofs.Pairing.Invariant

-- The walk along a tree in flat storage, which follows places and asks each node what it is. It may
-- be led to no node or to a statement in place of an expression, and what it does then is left open.
-- Along nodes that unfold it does what the walk along the unfolded tree does, so it is never led
-- there.

namespace ScriptEngine

variable {σ : Type}

-- What a walk does where it is led to no node, or to a statement in place of an expression.
structure Mishap (σ : Type) where
  absent {α : Type} : Nat → Run σ Error α
  misplaced : Location → Run σ Error Value

def Node.offset : Node → Nat
  | empty offset | block offset _ | branch offset _ _ _ | declare offset _ _
  | loop offset _ _ _ _ _ | giveBack offset _ | breakLoop offset | continueLoop offset
  | literal offset _ | identifier offset _ | receiver offset | dot offset _ _
  | subscript offset _ _ | unary offset _ _ | binary offset _ _ _ | logical offset _ _ _
  | ternary offset _ _ _ | assign offset _ _ | update offset _ _ _ _ | call offset _ _
  | construct offset _ _ | object offset _ | array offset _ | function offset _ => offset

namespace Flat

-- Goes on with the node at a place.
def visit {α : Type} (mishap : Mishap σ) (arena : Arena) (id : Nat)
    (next : Node → Run σ Error α) : Run σ Error α :=
  match arena[id]? with
  | some node => next node
  | none => mishap.absent id

def evalAll (eval : Nat → Run σ Error Value) : List Nat → Run σ Error (List Value)
  | [] => return []
  | first :: rest => do
    let value ← eval first
    return value :: (← evalAll eval rest)

def evalEntries (eval : Nat → Run σ Error Value) :
    List (String × Nat) → Run σ Error (List (String × Value))
  | [] => return []
  | (key, first) :: rest => do
    let value ← eval first
    return (key, value) :: (← evalEntries eval rest)

section Walk

variable (mishap : Mishap σ) (host : Host σ) (below : Below σ) (fuel : Nat) (context : Context)
  (arena : Arena)

-- Stores a value into the place that a node names.
def storeNode (eval : Nat → Run σ Error Value) (value : Value) : Node → Run σ Error Unit
  | .identifier _ name => Run.modifyHeap (context.scope.assign name value)
  | .dot offset target name => do
    let container ← eval target
    Run.locate (context.at offset) (Run.changeHeap (·.setProperty container name value))
  | .subscript offset target index => do
    let container ← eval target
    let key ← eval index
    Run.hold container key
    Run.locate (context.at offset) (Run.changeHeap (·.setSubscript container key value))
  | node => Run.fail ⟨.notAssignable, context.at node.offset⟩

-- Takes the arguments of a call and calls.
def callWith (eval : Nat → Run σ Error Value) (offset : Nat) (function receiver : Value)
    (arguments : List Nat) (method : Option String) : Run σ Error Value := do
  Run.locate (context.at offset) (Run.checkpoint host)
  let arguments ← evalAll eval arguments
  callValue host below (context.at offset) function receiver arguments method context.scope

-- Calls what a node names, which is a method if the node is a property.
def callNode (eval : Nat → Run σ Error Value) (offset callee : Nat) (arguments : List Nat) :
    Node → Run σ Error Value
  | .dot _ target name => do
    let receiver ← eval target
    let machine ← Run.get
    let function ← Run.locate (context.at offset)
      (Run.ofExcept (machine.heap.method host machine.root receiver name))
    callWith host below context eval offset function receiver arguments (some name)
  | _ => do
    let function ← eval callee
    callWith host below context eval offset function (.object context.scope.frame) arguments none

-- The value of a node, given the values of its children.
def evalNode (eval : Nat → Run σ Error Value) : Node → Run σ Error Value
  | .literal _ value => return value.toValue
  | .identifier _ name => do
    let heap ← Run.getHeap
    return (context.scope.find? heap name).getD .undefined
  | .receiver _ => do
    let heap ← Run.getHeap
    return context.scope.receiver heap
  | .dot _ target name => do
    let target ← eval target
    let heap ← Run.getHeap
    return heap.property target name
  | .subscript _ target index => do
    let target ← eval target
    let key ← eval index
    let heap ← Run.getHeap
    return heap.subscript target key
  | .unary _ operator operand => do
    let value ← eval operand
    let heap ← Run.getHeap
    match operator with
    | .not => return .boolean !value.isTruthy
    | .typeOf => return .string (heap.typeOf value)
  | .binary offset operator left right => do
    let a ← eval left
    let b ← eval right
    let heap ← Run.getHeap
    Run.locate (context.at offset) (Run.ofExcept (heap.applyBinary host operator a b))
  | .logical _ operator left right => do
    let a ← eval left
    match operator, a.isTruthy with
    | .and, false => return .boolean false
    | .or, true => return .boolean true
    | _, _ => do
      let b ← eval right
      return .boolean b.isTruthy
  | .ternary _ test yes no => do
    let test ← eval test
    if test.isTruthy then eval yes else eval no
  | .assign _ target value => do
    let value ← eval value
    visit mishap arena target (storeNode context eval value)
    return value
  | .update offset operator target value givesOld => do
    let old ← eval target
    let other ← eval value
    let heap ← Run.getHeap
    let new ← Run.locate (context.at offset)
      (Run.ofExcept (heap.applyBinary host operator old other))
    visit mishap arena target (storeNode context eval new)
    return if givesOld then old else new
  | .call offset callee arguments =>
    visit mishap arena callee (callNode host below context eval offset callee arguments)
  | .construct offset path arguments => do
    let heap ← Run.getHeap
    match context.path heap path with
    | .object class_ =>
      match (heap.object class_).closure? with
      | some closure => do
        let instance_ ← Run.onHeap (·.addObjectValue (heap.object class_).forFunction)
        Run.locate (context.at offset) (Run.checkpoint host)
        let arguments ← evalAll eval arguments
        let _ ← below.enter (context.at offset) closure instance_ arguments context.scope
        return instance_
      | none => do
        Run.locate (context.at offset) (Run.checkpoint host)
        let arguments ← evalAll eval arguments
        Run.locate (context.at offset)
          (ScriptEngine.construct host (path.getLastD "") class_ arguments)
    | _ => return .undefined
  | .object _ entries => do
    let entries ← evalEntries eval entries
    Run.onHeap (·.addObjectValue ⟨.ordinary, Properties.empty.setAll entries⟩)
  | .array _ elements => do
    let elements ← evalAll eval elements
    Run.onHeap (·.addArrayValue elements)
  | .function _ code =>
    match code.function? with
    | some literal =>
      Run.onHeap (·.addObjectValue ⟨.function ⟨context.script, literal⟩, .empty⟩)
    | none => mishap.absent code.tree.root
  | node => mishap.misplaced (context.at node.offset)

-- The value of the node at a place. The places lead back, so no more steps are needed than there are
-- nodes.
def eval : Nat → Nat → Run σ Error Value
  | 0, id => mishap.absent id
  | steps + 1, id =>
    visit mishap arena id (evalNode mishap host below context arena (eval steps))

def execAll (exec : Nat → Run σ Error Completion) : List Nat → Run σ Error Completion
  | [] => return .normal
  | first :: rest => do
    match ← exec first with
    | .normal => execAll exec rest
    | completion => return completion

-- Runs a node, given the runs of its children and, if it is an expression, its own value.
def execNode (eval : Nat → Run σ Error Value) (exec : Nat → Run σ Error Completion)
    (own : Run σ Error Value) : Node → Run σ Error Completion
  | .empty _ => return .normal
  | .block _ body => execAll exec body
  | .branch _ test yes no => do
    let test ← eval test
    if test.isTruthy then exec yes
    else
      match no with
      | some no => exec no
      | none => return .normal
  | .declare _ name initial => do
    let value ← match initial with
      | some value => eval value
      | none => pure .undefined
    Run.modifyHeap (context.scope.declare name value)
    return .normal
  | .loop offset initial test step body testLast => do
    let _ ← match initial with
      | some initial => exec initial
      | none => pure .normal
    let holds : Run σ Error Bool := match test with
      | some test => do
        let value ← eval test
        return value.isTruthy
      | none => return true
    let advance : Run σ Error Unit := match step with
      | some step => do
        let _ ← exec step
        return ()
      | none => return ()
    Run.repeatUntil
      (Loop.round (Run.locate (context.at offset) (Run.checkpoint host)) holds (exec body) advance
        testLast)
      fuel
  | .giveBack _ value => do
    match value with
    | some value => return .returned (← eval value)
    | none => return .returned .undefined
  | .breakLoop _ => return .broke
  | .continueLoop _ => return .continued
  | _ => do
    let _ ← own
    return .normal

def exec : Nat → Nat → Run σ Error Completion
  | 0, id => mishap.absent id
  | steps + 1, id =>
    visit mishap arena id
      (execNode host fuel context (eval mishap host below context arena steps) (exec steps)
        (eval mishap host below context arena (steps + 1) id))

end Walk

section Agreement

variable {mishap : Mishap σ} {host : Host σ} {below : Below σ} {fuel : Nat} {context : Context}
  {arena : Arena} {items before : List Stmt} {node : Node} {id : Nat}
  {eval' : Nat → Run σ Error Value} {exec' : Nat → Run σ Error Completion}

-- The values of the nodes that have become expressions are the values of these.
def Evaluates (host : Host σ) (below : Below σ) (context : Context)
    (eval' : Nat → Run σ Error Value) (before : List Stmt) : Prop :=
  ∀ id value, Stmt.exprAt? before id = some value → eval' id = value.eval host below context

def Executes (host : Host σ) (below : Below σ) (fuel : Nat) (context : Context)
    (exec' : Nat → Run σ Error Completion) (before : List Stmt) : Prop :=
  ∀ (id : Nat) (item : Stmt), before[id]? = some item →
    exec' id = item.exec host below fuel context

theorem Evaluates.take {count : Nat} (h : Evaluates host below context eval' (items.take count))
    (hle : id ≤ count) : Evaluates host below context eval' (items.take id) :=
  fun place value hv => h place value (Stmt.exprAt?_mono (List.take_prefix_take_left hle) hv)

theorem Executes.take {count : Nat} (h : Executes host below fuel context exec' (items.take count))
    (hle : id ≤ count) : Executes host below fuel context exec' (items.take id) :=
  fun place item hi => h place item (Stmt.itemAt_mono (List.take_prefix_take_left hle) hi)

theorem Evaluates.evalAll (h : Evaluates host below context eval' before) {ids : List Nat}
    {values : List Expr} (hv : ids.mapM (Stmt.exprAt? before) = some values) :
    evalAll eval' ids = Expr.evalAll host below context values := by
  induction ids generalizing values with
  | nil =>
    obtain rfl : values = [] := by simpa using hv.symm
    rw [Flat.evalAll, Expr.evalAll]
  | cons first rest ih =>
    simp only [List.mapM_cons, bind, pure, Option.bind_eq_some_iff, Option.some.injEq] at hv
    obtain ⟨value, hfirst, others, hrest, rfl⟩ := hv
    rw [Flat.evalAll, Expr.evalAll, h first value hfirst, ih hrest]

theorem Evaluates.evalEntries (h : Evaluates host below context eval' before)
    {ids : List (String × Nat)} {entries : List (String × Expr)}
    (hv : (ids.mapM fun entry => (Stmt.exprAt? before entry.2).map (entry.1, ·)) = some entries) :
    evalEntries eval' ids = Expr.evalEntries host below context entries := by
  induction ids generalizing entries with
  | nil =>
    obtain rfl : entries = [] := by simpa using hv.symm
    rw [Flat.evalEntries, Expr.evalEntries]
  | cons first rest ih =>
    obtain ⟨key, id⟩ := first
    simp only [List.mapM_cons, bind, pure, Option.bind_eq_some_iff, Option.map_eq_some_iff,
      Option.some.injEq] at hv
    obtain ⟨_, ⟨value, hfirst, rfl⟩, others, hrest, rfl⟩ := hv
    rw [Flat.evalEntries, Expr.evalEntries, h id value hfirst, ih hrest]

theorem Executes.execAll (h : Executes host below fuel context exec' before) {ids : List Nat}
    {body : List Stmt} (hv : ids.mapM (before[·]?) = some body) :
    execAll exec' ids = Stmt.execAll host below fuel context body := by
  induction ids generalizing body with
  | nil =>
    obtain rfl : body = [] := by simpa using hv.symm
    rw [Flat.execAll, Stmt.execAll]
  | cons first rest ih =>
    simp only [List.mapM_cons, bind, pure, Option.bind_eq_some_iff, Option.some.injEq] at hv
    obtain ⟨item, hfirst, others, hrest, rfl⟩ := hv
    rw [Flat.execAll, Stmt.execAll, h first item hfirst]
    refine congrArg (item.exec host below fuel context >>= ·) (funext fun completion => ?_)
    cases completion with
    | normal => exact ih hrest
    | _ => rfl

theorem Evaluates.storeNode (h : Evaluates host below context eval' before) {target : Expr}
    (hn : node.item? before = some (.expression target)) (value : Value) :
    storeNode context eval' value node = target.store host below context value := by
  cases node with
  | identifier offset name =>
    obtain rfl : target = .identifier offset name := by simpa [Node.item?] using hn.symm
    rw [Flat.storeNode, Expr.store]
  | dot offset container name =>
    simp only [Node.item?, bind, pure, Option.bind_eq_some_iff, Option.some.injEq,
      Stmt.expression.injEq] at hn
    obtain ⟨inner, hc, rfl⟩ := hn
    rw [Flat.storeNode, Expr.store, h _ _ hc]
  | subscript offset container index =>
    simp only [Node.item?, bind, pure, Option.bind_eq_some_iff, Option.some.injEq,
      Stmt.expression.injEq] at hn
    obtain ⟨inner, hc, key, hk, rfl⟩ := hn
    rw [Flat.storeNode, Expr.store, h _ _ hc, h _ _ hk]
  | _ =>
    simp only [Node.item?, bind, pure, Option.bind_eq_some_iff, Option.some.injEq,
      Stmt.expression.injEq, reduceCtorEq, and_false, exists_false] at hn
    all_goals grind [Flat.storeNode, Expr.store, Node.offset, Expr.offset]

theorem Evaluates.callNode (h : Evaluates host below context eval' before) {offset place : Nat}
    {ids : List Nat} {callee : Expr} {arguments : List Expr}
    (hn : node.item? before = some (.expression callee))
    (hc : eval' place = callee.eval host below context)
    (ha : Flat.evalAll eval' ids = Expr.evalAll host below context arguments) :
    callNode host below context eval' offset place ids node =
      (Expr.call offset callee arguments).eval host below context := by
  by_cases hplain : callee.isPlain
  · rw [Expr.eval_call hplain]
    cases node with
    | dot _ _ _ =>
      simp only [Node.item?, bind, pure, Option.bind_eq_some_iff, Option.some.injEq,
        Stmt.expression.injEq] at hn
      obtain ⟨inner, -, rfl⟩ := hn
      cases hplain
    | _ => simp only [Flat.callNode, callWith, hc, ha]
  · cases callee with
    | dot place target name =>
      cases node with
      | dot _ container _ =>
        simp only [Node.item?, bind, pure, Option.bind_eq_some_iff, Option.some.injEq,
          Stmt.expression.injEq, Expr.dot.injEq] at hn
        obtain ⟨inner, hi, rfl, rfl, rfl⟩ := hn
        rw [Flat.callNode, Expr.eval, h _ _ hi]
        simp only [callWith, ha]
      | _ => simp [Node.item?, Option.bind_eq_some_iff] at hn
    | _ => exact absurd rfl hplain

-- The node that the place of an operand leads to.
theorem exists_operand (hu : arena.Unfolds items) {child : Nat} {value : Expr}
    (hv : Stmt.exprAt? (items.take id) child = some value) :
    ∃ operand, arena[child]? = some operand ∧
      operand.item? (items.take child) = some (.expression value) ∧ child < id := by
  obtain ⟨item, hi, hitem⟩ := Option.bind_eq_some_iff.mp hv
  have hlt : child < id := by
    have := (List.getElem?_eq_some_iff.mp hi).1
    simp at this
    omega
  cases item with
  | expression found =>
    cases hitem
    obtain ⟨operand, ho, hn⟩ := hu.node_of (Stmt.itemAt_mono (List.take_prefix _ _) hi)
    exact ⟨operand, ho, hn, hlt⟩
  | _ => cases hitem

theorem Evaluates.visit_storeNode (hu : arena.Unfolds items)
    (h : Evaluates host below context eval' (items.take id)) {child : Nat} {target : Expr}
    (ht : Stmt.exprAt? (items.take id) child = some target) (value : Value) :
    visit mishap arena child (Flat.storeNode context eval' value) =
      target.store host below context value := by
  obtain ⟨operand, ho, hn, hlt⟩ := exists_operand hu ht
  rw [visit, ho]
  exact (h.take (Nat.le_of_lt hlt)).storeNode hn value

-- One node does what its expression does, if the nodes before it do.
theorem Evaluates.evalNode (hu : arena.Unfolds items)
    (h : Evaluates host below context eval' (items.take id)) {value : Expr}
    (hn : node.item? (items.take id) = some (.expression value)) :
    evalNode mishap host below context arena eval' node = value.eval host below context := by
  cases node <;>
    simp only [Node.item?, bind, pure, Option.bind_eq_some_iff, Option.some.injEq,
      Stmt.expression.injEq, reduceCtorEq, and_false, exists_false] at hn
  case literal => subst hn; rw [Flat.evalNode, Expr.eval]
  case identifier => subst hn; rw [Flat.evalNode, Expr.eval]
  case receiver => subst hn; rw [Flat.evalNode, Expr.eval]
  case dot =>
    obtain ⟨target, ht, rfl⟩ := hn
    rw [Flat.evalNode, Expr.eval, h _ _ ht]
  case subscript =>
    obtain ⟨target, ht, index, hi, rfl⟩ := hn
    rw [Flat.evalNode, Expr.eval, h _ _ ht, h _ _ hi]
  case unary =>
    obtain ⟨operand, ho, rfl⟩ := hn
    rw [Expr.eval, ← h _ _ ho]
    rfl
  case binary =>
    obtain ⟨left, hl, right, hr, rfl⟩ := hn
    rw [Flat.evalNode, Expr.eval, h _ _ hl, h _ _ hr]
  case logical =>
    obtain ⟨left, hl, right, hr, rfl⟩ := hn
    rw [Expr.eval, ← h _ _ hl, ← h _ _ hr]
    rfl
  case ternary =>
    obtain ⟨test, ht, yes, hy, no, hno, rfl⟩ := hn
    rw [Flat.evalNode, Expr.eval, h _ _ ht, h _ _ hy, h _ _ hno]
  case assign =>
    obtain ⟨target, ht, value, hv, rfl⟩ := hn
    rw [Flat.evalNode, Expr.eval, h _ _ hv]
    simp only [h.visit_storeNode hu ht]
  case update =>
    obtain ⟨target, ht, value, hv, rfl⟩ := hn
    rw [Flat.evalNode, Expr.eval, h _ _ ht, h _ _ hv]
    simp only [h.visit_storeNode hu ht]
  case call =>
    obtain ⟨callee, hc, arguments, ha, rfl⟩ := hn
    obtain ⟨operand, ho, hnode, hlt⟩ := exists_operand hu hc
    rw [Flat.evalNode, visit, ho]
    exact (h.take (Nat.le_of_lt hlt)).callNode hnode (h _ _ hc) (h.evalAll ha)
  case construct =>
    obtain ⟨arguments, ha, rfl⟩ := hn
    rw [Expr.eval, ← h.evalAll ha]
    rfl
  case object =>
    obtain ⟨entries, he, rfl⟩ := hn
    rw [Flat.evalNode, Expr.eval, h.evalEntries he]
  case array =>
    obtain ⟨elements, he, rfl⟩ := hn
    rw [Flat.evalNode, Expr.eval, h.evalAll he]
  case function =>
    obtain ⟨literal, hl, rfl⟩ := hn
    rw [Flat.evalNode, hl, Expr.eval]

-- With steps for the place, the value of a node is the value of its expression.
theorem eval_eq (hu : arena.Unfolds items) (steps : Nat) :
    Evaluates host below context (eval mishap host below context arena steps)
      (items.take steps) := by
  induction steps with
  | zero =>
    intro id value hv
    simp [Stmt.exprAt?] at hv
  | succ steps ih =>
    intro id value hv
    obtain ⟨node, hnode, hn, hlt⟩ := exists_operand hu hv
    rw [eval, visit, hnode]
    exact (ih.take (Nat.le_of_lt_succ hlt)).evalNode hu hn

theorem Evaluates.holds (h : Evaluates host below context eval' before) (place : Option Nat)
    (test : Option Expr) :
    Node.part? (Stmt.exprAt? before) place = some test →
    (match place with
      | some test => do
        let value ← eval' test
        return value.isTruthy
      | none => return true) = Expr.holds host below context test := by
  intro ht
  cases place with
  | none =>
    cases ht
    rfl
  | some place =>
    obtain ⟨value, hv, rfl⟩ := Option.map_eq_some_iff.mp ht
    simp only [Expr.holds, h _ _ hv]

-- A step of a loop runs as a statement, which is an expression.
theorem Executes.advance (hx : Executes host below fuel context exec' before) (place : Option Nat)
    (step : Option Expr) :
    Node.part? (Stmt.exprAt? before) place = some step →
    (match place with
      | some step => do
        let _ ← exec' step
        return ()
      | none => return () : Run σ Error Unit) =
    (match step with
      | some step => do
        let _ ← step.eval host below context
        return ()
      | none => return ()) := by
  intro hs
  cases place with
  | none =>
    cases hs
    rfl
  | some place =>
    obtain ⟨value, hv, rfl⟩ := Option.map_eq_some_iff.mp hs
    obtain ⟨item, hi, hitem⟩ := Option.bind_eq_some_iff.mp hv
    cases item with
    | expression found =>
      cases hitem
      simp only [hx _ _ hi, Stmt.exec]
      funext machine
      simp only [Run.bind_apply]
      rcases value.eval host below context machine with ⟨_ | _ | _, after⟩ <;> rfl
    | _ => cases hitem

-- One node runs as its statement does, if the nodes before it do.
theorem Executes.execNode (h : Evaluates host below context eval' before)
    (hx : Executes host below fuel context exec' before) {item : Stmt} {own : Run σ Error Value}
    (hn : node.item? before = some item)
    (ho : ∀ value, item = .expression value → own = value.eval host below context) :
    execNode host fuel context eval' exec' own node = item.exec host below fuel context := by
  cases node with
  | empty _ | breakLoop _ | continueLoop _ =>
    cases hn
    rw [Flat.execNode, Stmt.exec]
  | block offset ids =>
    simp only [Node.item?, bind, pure, Option.bind_eq_some_iff, Option.some.injEq] at hn
    obtain ⟨body, hb, rfl⟩ := hn
    rw [Flat.execNode, Stmt.exec, hx.execAll hb]
  | branch offset test yes no =>
    simp only [Node.item?, bind, pure, Option.bind_eq_some_iff, Option.some.injEq] at hn
    obtain ⟨test, ht, yes, hy, other, hother, rfl⟩ := hn
    cases no with
    | none =>
      cases hother
      rw [Flat.execNode, Stmt.exec, h _ _ ht, hx _ _ hy]
    | some no =>
      obtain ⟨item, hitem, rfl⟩ := Option.map_eq_some_iff.mp hother
      rw [Flat.execNode, Stmt.exec, h _ _ ht, hx _ _ hy, hx _ _ hitem]
  | declare offset name place =>
    simp only [Node.item?, bind, pure, Option.bind_eq_some_iff, Option.some.injEq] at hn
    obtain ⟨initial, hi, rfl⟩ := hn
    cases place with
    | none =>
      cases hi
      rw [Flat.execNode, Stmt.exec]
    | some place =>
      obtain ⟨value, hv, rfl⟩ := Option.map_eq_some_iff.mp hi
      rw [Flat.execNode, Stmt.exec, h _ _ hv]
  | loop offset initial test step body testLast =>
    simp only [Node.item?, bind, pure, Option.bind_eq_some_iff, Option.some.injEq] at hn
    obtain ⟨first, hfirst, test, ht, step, hs, body, hb, rfl⟩ := hn
    cases initial with
    | none =>
      cases hfirst
      simp only [Flat.execNode, h.holds _ test ht, hx.advance _ step hs, hx _ _ hb]
      rfl
    | some initial =>
      obtain ⟨item, hitem, rfl⟩ := Option.map_eq_some_iff.mp hfirst
      simp only [Flat.execNode, h.holds _ test ht, hx.advance _ step hs, hx _ _ hb, hx _ _ hitem]
      rfl
  | giveBack offset place =>
    simp only [Node.item?, bind, pure, Option.bind_eq_some_iff, Option.some.injEq] at hn
    obtain ⟨value, hv, rfl⟩ := hn
    cases place with
    | none =>
      cases hv
      rw [Flat.execNode, Stmt.exec]
    | some place =>
      obtain ⟨found, hfound, rfl⟩ := Option.map_eq_some_iff.mp hv
      rw [Flat.execNode, Stmt.exec, h _ _ hfound]
  | _ =>
    simp only [Node.item?, bind, pure, Option.bind_eq_some_iff, Option.some.injEq] at hn
    obtain ⟨value, rfl⟩ : ∃ value, item = .expression value := by grind
    rw [Flat.execNode, Stmt.exec, ho value rfl]
    all_goals
      intros
      contradiction

-- With steps for the place, a node runs as its statement does.
theorem exec_eq (hu : arena.Unfolds items) (steps : Nat) :
    Executes host below fuel context (exec mishap host below fuel context arena steps)
      (items.take steps) := by
  induction steps with
  | zero =>
    intro id item hi
    simp at hi
  | succ steps ih =>
    intro id item hi
    have hlt : id < steps + 1 := by
      have := (List.getElem?_eq_some_iff.mp hi).1
      simp at this
      omega
    have hle : id ≤ steps := Nat.le_of_lt_succ hlt
    obtain ⟨node, hnode, hn⟩ := hu.node_of (Stmt.itemAt_mono (List.take_prefix _ _) hi)
    rw [exec, visit, hnode]
    refine Executes.execNode ((eval_eq hu steps).take hle) (ih.take hle) hn fun value he => ?_
    subst he
    exact eval_eq hu (steps + 1) id value (Stmt.exprAt?_of_item hi)

theorem exec_of_gains {root : Nat} {item : Stmt} (h : Arena.Gains [] (root, arena) item) :
    exec mishap host below fuel context arena arena.length root =
      item.exec host below fuel context := by
  obtain ⟨items, hu, -, hi⟩ := h
  refine exec_eq hu arena.length root item ?_
  rw [← hu.length_eq, List.take_length]
  exact hi

theorem eval_tree (value : Expr) :
    eval mishap host below context value.tree.nodes value.tree.nodes.length value.tree.root =
      value.eval host below context := by
  obtain ⟨items, hu, -, hi⟩ := value.gains_place Arena.unfolds_nil
  refine eval_eq hu _ _ value (Stmt.exprAt?_of_item ?_)
  change (items.take (value.place []).2.length)[(value.place []).1]? = _
  rw [← hu.length_eq, List.take_length]
  exact hi

theorem exec_tree (program : Program) :
    exec mishap host below fuel context program.tree.nodes program.tree.nodes.length
        program.tree.root =
      Stmt.execAll host below fuel context program.body := by
  have hblock := (Stmt.block program.offset program.body).gains_place Arena.unfolds_nil
  refine (exec_of_gains hblock).trans ?_
  rw [Stmt.exec]

theorem exec_code (literal : Function) :
    exec mishap host below fuel context literal.code.tree.nodes literal.code.tree.nodes.length
        literal.code.tree.root =
      Stmt.execAll host below fuel context literal.body := by
  cases literal with
  | mk name parameters offset body source =>
    have hblock := (Stmt.block offset body).gains_place Arena.unfolds_nil
    refine (exec_of_gains hblock).trans ?_
    rw [Stmt.exec]
    rfl

end Agreement

section Levels

variable (mishap : Mishap σ) (host : Host σ)

-- The levels of a run along flat trees.
def below : Nat → Below σ
  | 0 => { enter := fun _ _ _ _ _ => Run.spent, script := fun _ _ => Run.spent }
  | fuel + 1 =>
    { enter := fun location closure receiver arguments scope => Run.deeper location do
        let frame ← Run.onHeap (·.addObject (closure.frame receiver arguments))
        let tree := closure.function.code.tree
        match ← exec mishap host (below fuel) fuel ⟨closure.script, scope.child frame⟩ tree.nodes
            tree.nodes.length tree.root with
        | .returned value => return value
        | _ => return .undefined
      script := fun form text => do
        let machine ← Run.get
        match form, Tree.read form text with
        | .expression, .ok tree =>
          Run.embed (eval mishap host (below fuel) ⟨text, .ofRoot machine.root⟩ tree.nodes
            tree.nodes.length tree.root)
        | .statements, .ok tree => do
          let _ ← Run.embed (exec mishap host (below fuel) fuel ⟨text, .ofRoot machine.root⟩
            tree.nodes tree.nodes.length tree.root)
          return .undefined
        | _, .error error => Run.fail (.nested ⟨text, error.offset⟩ (.malformed error.fault)) }

theorem below_eq (fuel : Nat) : below mishap host fuel = Below.ofFuel host fuel := by
  induction fuel with
  | zero => rfl
  | succ fuel ih =>
    rw [below, ih, Below.ofFuel_succ, Below.mk.injEq]
    constructor
    · funext location closure receiver arguments scope
      simp only [exec_code]
      rfl
    · funext form text
      refine congrArg (Run.get >>= ·) (funext fun machine => ?_)
      cases form with
      | expression =>
        rw [Tree.read_expression]
        cases Expr.read text with
        | error error => rfl
        | ok value => exact congrArg Run.embed (eval_tree value)
      | statements =>
        rw [Tree.read_statements]
        cases Program.read text with
        | error error => rfl
        | ok program =>
          have hexec : exec mishap host (Below.ofFuel host fuel) fuel ⟨text, .ofRoot machine.root⟩
              program.tree.nodes program.tree.nodes.length program.tree.root = _ :=
            exec_tree program
          simp only [Except.map, hexec]

end Levels

end Flat

namespace Entry

-- The computation of an entry whose text is read into flat storage and walked there.
def flatRun (mishap : Mishap σ) (host : Host σ) (fuel : Nat) (engine : Engine σ) :
    Entry → Run σ Error Unit
  | execute source =>
    match Tree.read .statements source with
    | .ok tree => do
      let _ ← Flat.exec mishap host (Flat.below mishap host fuel) fuel
        ⟨source, .ofRoot engine.root⟩ tree.nodes tree.nodes.length tree.root
      return ()
    | .error error => Run.fail (.ofParse source error)
  | evaluate source =>
    match Tree.read .expression source with
    | .ok tree => do
      let _ ← Flat.eval mishap host (Flat.below mishap host fuel) ⟨source, .ofRoot engine.root⟩
        tree.nodes tree.nodes.length tree.root
      return ()
    | .error error => Run.fail (.ofParse source error)
  | callFunction name arguments =>
    match (engine.heap.get? engine.root name).filter engine.heap.isFunction with
    | some function => do
      let _ ← callValue host (Flat.below mishap host fuel) ⟨name, 0⟩ function (.object engine.root)
        arguments none (.ofRoot engine.root)
      return ()
    | none => Run.fail ⟨.unknownFunction name, ⟨name, 0⟩⟩
  | callWithin frame function arguments => do
    let _ ← callValue host (Flat.below mishap host fuel) ⟨"", 0⟩ function (.object frame) arguments
      none ((Scope.ofRoot engine.root).child frame)
    return ()

-- An entry that walks flat trees does what the entry does, whatever would happen to a walk that is
-- led astray.
theorem flatRun_eq_run (mishap : Mishap σ) (host : Host σ) (fuel : Nat) (engine : Engine σ)
    (entry : Entry) : entry.flatRun mishap host fuel engine =
      entry.run host (Below.ofFuel host fuel) fuel engine := by
  cases entry with
  | execute source =>
    rw [flatRun, run, Tree.read_statements, Flat.below_eq]
    cases Program.read source with
    | error error => rfl
    | ok program => simp only [Except.map, Flat.exec_tree]
  | evaluate source =>
    rw [flatRun, run, Tree.read_expression, Flat.below_eq]
    cases Expr.read source with
    | error error => rfl
    | ok value => simp only [Except.map, Flat.eval_tree]
  | callFunction name arguments =>
    rw [run, ← Flat.below_eq mishap]
    rfl
  | callWithin frame function arguments => rw [flatRun, run, Flat.below_eq]

end Entry

end ScriptEngine
