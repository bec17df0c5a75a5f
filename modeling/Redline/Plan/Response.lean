import Redline.Plan.Check

/-!
# Planner responses

A planner answers with a text and one of the two families of plans.

## Main definitions

* `Response` — a response that has been read.
* `readResponse` — picks the family and reads the plan.
-/

namespace Redline

/-- The plan of a response. -/
inductive ResponsePlan where
  | edit (plan : EditPlan)
  | block (plan : BlockPlan)
deriving Repr

/-- A response: what the planner says, and its plan. -/
structure Response where
  text : String
  plan : ResponsePlan
deriving Repr

namespace ResponsePlan

/-- The name of the family. -/
def kind : ResponsePlan → String
  | .edit _ => "legacy"
  | .block _ => "semantic"

/-- How many changes the plan asks for. -/
def count : ResponsePlan → Nat
  | .edit plan => plan.actions.length
  | .block plan => plan.operations.length

end ResponsePlan

/-- A text, or the given one when it is missing or empty. -/
def Check.textOr (standard : String) : Json → String
  | .str text => if text.isEmpty then standard else text
  | _ => standard

/-- Reads a response.  Operations are looked for first; an edit plan has to have actions. -/
def readResponse (rules : Rules) (payload : Json) : Except Rejection Response :=
  match payload with
  | .obj _ =>
    match payload.getD "ops" with
    | .arr ops => do
      let plan ← Check.readBlockPlan rules (.obj [("ops", .arr ops)])
      .ok ⟨Check.textOr "Semantic edit plan generated" (payload.getD "response"), .block plan⟩
    | _ =>
      let value := payload.getD "edit_plan"
      if !value.isTruthy then Check.reject "$" .planMissing
      else do
        let plan ← Check.readEditPlan rules value
        if plan.actions.isEmpty then Check.reject "edit_plan.actions" .planWithoutActions
        else
          .ok ⟨Check.textOr "Edit plan generated successfully" (payload.getD "response"),
            .edit plan⟩
  | _ => Check.reject "$" .responseNotObject

/-- A response in its written form: a block plan travels with an edit plan without actions. -/
def Response.toJson (response : Response) : Json :=
  let (editPlan, blockPlan) := match response.plan with
    | .edit plan => (plan, Json.null)
    | .block plan => (⟨[]⟩, plan.toJson)
  .obj [("kind", .str response.plan.kind), ("response", .str response.text),
    ("edit_plan", editPlan.toJson), ("semantic_plan", blockPlan)]

end Redline
