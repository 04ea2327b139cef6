import Dataflow.Proofs.Archive.Reading
import Dataflow.Proofs.Pass.Soundness

/-!
# Reachable models

The models that the operations of this library can make.  All of them are sound.
-/

namespace Dataflow

/-- The models that the operations of this library make from the empty model and from records. -/
inductive Model.Reachable : Model → Prop
  | empty : Reachable .empty
  | add {model : Model} {node : Node} {id : NodeId} {after : Model} (before : Reachable model)
      (made : node.Made) (added : model.add node = .ok (id, after)) : Reachable after
  | insert {model : Model} {node : Node} {id : NodeId} {after : Model} (before : Reachable model)
      (made : node.Made) (inserted : model.insert id node = .ok after) : Reachable after
  | remove {model : Model} {node : Node} {id : NodeId} {after : Model} (before : Reachable model)
      (removed : model.remove id = .ok (node, after)) : Reachable after
  | setInput {model : Model} {id : NodeId} {values : Buffer} {after : Model}
      (before : Reachable model) (set : model.setInput id values = .ok after) : Reachable after
  | compute {model : Model} (before : Reachable model) : Reachable model.compute.model
  | clone {model : Model} (before : Reachable model) : Reachable model.clone
  | attachCallback {model : Model} {id : NodeId} {name : String} {after : Model}
      (before : Reachable model) (attached : model.attachCallback? id = some (name, after)) :
      Reachable after
  | unarchive {registry : Registry} {record : Record} {model : Model}
      (read : registry.unarchiveModel record = .ok model) : Reachable model
  | copy {source model : Model} {before after : Transformer} (reachable : Reachable source)
      (copied : Succeeds (Pass.copyModel source) before model after) : Reachable model
  | copySubmodel {source model : Model} {outputs translated : List Elements}
      {before after : Transformer} (reachable : Reachable source)
      (copied : Succeeds (Pass.copySubmodel source outputs) before (model, translated) after) :
      Reachable model
  | transform {source model : Model} {rules : List (String × Recipe)} {refined : Nat}
      {before after : Transformer} (reachable : Reachable source)
      (transformed :
        Succeeds (Pass.transformModel source (byRules rules)) before (model, refined) after) :
      Reachable model
  | refine {source : Model} {options : RefineOptions} {refined : Refined}
      {before after : Transformer} (reachable : Reachable source)
      (done : Succeeds (refineModel source options) before refined after) :
      Reachable refined.model

/-- Reachable models are well formed, and their nodes come from builders. -/
theorem Model.Reachable.sound {model : Model} (reachable : model.Reachable) : model.Sound := by
  induction reachable with
  | empty => exact sound_empty
  | add _ made added ih => exact ih.add made added
  | insert _ made inserted ih => exact ih.insert made inserted
  | remove _ removed ih => exact ih.remove removed
  | setInput _ set ih => exact ih.setInput set
  | compute _ ih => exact ih.compute
  | clone _ ih => exact ih.clone
  | attachCallback _ attached ih => exact ih.attachCallback attached
  | unarchive read => exact sound_of_unarchiveModel read
  | copy _ copied ih => exact Pass.sound_of_copyModel ih copied
  | copySubmodel _ copied ih => exact Pass.sound_of_copySubmodel ih copied
  | transform _ transformed ih =>
      exact Pass.sound_of_transformNodes ih (Pass.soundCallback_byRules _) transformed
  | refine _ done ih => exact Pass.sound_of_refineModel ih done

end Dataflow
