import TypedStubs.Syntax.Tree

/-! # Walking through a body

The nodes of a body are its statements and their expressions.  Nested functions, classes and lambdas are
left alone: a lambda is a node with nothing inside, and of a definition only the decorators are looked at.

A walk takes the nodes from a stack.  It notes what the node on top says and puts what stands right inside
that node in its place, the first thing on top; nodes may be closed to it.  So it meets the nodes in the
order of the source, which bounds its turns.
-/
namespace TypedStubs

open Syntax (Expr Stmt)

/-- A node of a body. -/
inductive BodyNode where
  /-- A statement. -/
  | stmt (s : Stmt)
  /-- An expression. -/
  | expr (e : Expr)

/-- The nodes right inside a node, in the order of the source. -/
def BodyNode.inside : BodyNode → List BodyNode
  | .expr (.node .lambda _ _) => []
  | .expr (.node _ _ parts) => parts.map .expr
  | .stmt (.expression _ values) => values.map .expr
  | .stmt (.assignment _ targets typed value) =>
    (targets ++ typed.toList ++ value.toList).map .expr
  | .stmt (.returns _ value) => value.toList.map .expr
  | .stmt (.raises _ parts) => parts.map .expr
  | .stmt (.plain _ parts) => parts.map .expr
  | .stmt (.function _ decorators _) => decorators.map .expr
  | .stmt (.classDef _ decorators _) => decorators.map .expr
  | .stmt (.compound _ parts) => parts.map .stmt
  | .stmt (.header value) => [.expr value]
  | .stmt (.passes _) | .stmt (.importing _ _) | .stmt (.comment _) => []

variable (closed : BodyNode → Bool)

/-- The nodes right inside a node, if it is not closed. -/
def BodyNode.entered (n : BodyNode) : List BodyNode := if closed n then [] else n.inside

/-! ### The nodes in order -/

mutual
/-- The nodes inside an expression. -/
def nodesInExpr : Expr → List BodyNode
  | .node .lambda _ _ => []
  | .node _ _ parts => exprNodes parts

/-- The nodes of expressions, each before those inside it. -/
def exprNodes : List Expr → List BodyNode
  | [] => []
  | e :: es => .expr e :: (if closed (.expr e) then [] else nodesInExpr e) ++ exprNodes es
end

mutual
/-- The nodes inside a statement. -/
def nodesInStmt : Stmt → List BodyNode
  | .expression _ values => exprNodes closed values
  | .assignment _ targets typed value => exprNodes closed (targets ++ typed.toList ++ value.toList)
  | .returns _ value => exprNodes closed value.toList
  | .raises _ parts => exprNodes closed parts
  | .plain _ parts => exprNodes closed parts
  | .function _ decorators _ => exprNodes closed decorators
  | .classDef _ decorators _ => exprNodes closed decorators
  | .compound _ parts => bodyNodes parts
  | .header value => exprNodes closed [value]
  | .passes _ | .importing _ _ | .comment _ => []

/-- The nodes of a body, each before those inside it. -/
def bodyNodes : List Stmt → List BodyNode
  | [] => []
  | s :: body => .stmt s :: (if closed (.stmt s) then [] else nodesInStmt s) ++ bodyNodes body
end

/-- The nodes of a node: itself, and those inside it if it is not closed. -/
def BodyNode.nodes : BodyNode → List BodyNode
  | .stmt s => bodyNodes closed [s]
  | .expr e => exprNodes closed [e]

theorem exprNodes_eq_flatMap (es : List Expr) :
    exprNodes closed es = (es.map BodyNode.expr).flatMap (BodyNode.nodes closed) := by
  induction es with
  | nil => rfl
  | cons e es ih => simp [exprNodes, BodyNode.nodes, ih]

theorem bodyNodes_eq_flatMap (body : List Stmt) :
    bodyNodes closed body = (body.map BodyNode.stmt).flatMap (BodyNode.nodes closed) := by
  induction body with
  | nil => rfl
  | cons s body ih => simp [bodyNodes, BodyNode.nodes, ih]

theorem nodesInExpr_eq (e : Expr) :
    nodesInExpr closed e = (BodyNode.expr e).inside.flatMap (BodyNode.nodes closed) := by
  cases e with
  | node kind text parts =>
    cases kind <;> first | rfl | exact exprNodes_eq_flatMap closed parts

theorem nodesInStmt_eq (s : Stmt) :
    nodesInStmt closed s = (BodyNode.stmt s).inside.flatMap (BodyNode.nodes closed) := by
  cases s with
  | compound _ parts => exact bodyNodes_eq_flatMap closed parts
  | header value => exact exprNodes_eq_flatMap closed [value]
  | passes _ | importing _ _ | comment _ => rfl
  | _ => exact exprNodes_eq_flatMap closed _

/-- A node comes before the nodes of what stands right inside it. -/
theorem BodyNode.nodes_eq (n : BodyNode) :
    n.nodes closed = n :: (n.entered closed).flatMap (BodyNode.nodes closed) := by
  cases n with
  | stmt s =>
    simp only [nodes, bodyNodes, entered, List.append_nil, nodesInStmt_eq]
    split <;> rfl
  | expr e =>
    simp only [nodes, exprNodes, entered, List.append_nil, nodesInExpr_eq]
    split <;> rfl

/-! ### Walks -/

/-- What a walk has found at the end that starts from a stack: `note` adds to it what a node says. -/
def walk {Found : Type} (note : Found → BodyNode → Found) : List BodyNode → Found → Found
  | [], found => found
  | n :: stack, found => walk note (n.entered closed ++ stack) (note found n)
termination_by stack => (stack.flatMap (BodyNode.nodes closed)).length
decreasing_by simp [BodyNode.nodes_eq closed n]

end TypedStubs
