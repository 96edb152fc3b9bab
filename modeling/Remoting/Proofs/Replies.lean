import Mathlib
import Remoting.Proofs.CallSlots
import Remoting.Proofs.Exchange

/-! What an answered call sends back, and what the caller makes of it. -/

namespace Remoting

namespace MethodDescription

/-- The values of the parameters that are sent back, after a call has left its slots so. -/
def returned (method : MethodDescription) (slots : List Value) : List Value :=
  method.responseParameters.map fun parameter => slots[parameter.position]?.getD .null

def outgoing (method : MethodDescription) (slots : List Value) (result : Value) :
    List (WireType × Value) :=
  method.responseParameters.map (fun parameter =>
      (parameter.type, slots[parameter.position]?.getD .null)) ++
    if method.returnsValue then [(method.result, result)] else []

/-- What is sent back for an answered call, with its types. Nothing but the result comes from an
asynchronous method, and from one without a value nothing at all. -/
def sentBack (method : MethodDescription) (slots : List Value) (result : Value) :
    List (WireType × Value) :=
  match method.style with
  | .direct => method.outgoing slots result
  | .asyncVoid => []
  | .asyncValue => if method.returnsValue then [(method.result, result)] else []

/-- The codecs of what is sent back. -/
def sentCodecs (method : MethodDescription) (response : List Codec) (result : Option Codec) :
    List Codec :=
  match method.style with
  | .direct => response ++ result.toList
  | .asyncVoid => []
  | .asyncValue => result.toList

def replyOf (method : MethodDescription) (slots : List Value) (result : Value) : DirectReply :=
  ⟨method.returned slots, if method.returnsValue then result else .unit⟩

theorem map_snd_outgoing (method : MethodDescription) (slots : List Value) (result : Value) :
    (method.outgoing slots result).map (·.2) =
      method.returned slots ++ if method.returnsValue then [result] else [] := by
  unfold outgoing returned
  by_cases h : method.returnsValue = true <;> simp [h]

section Codecs

variable {registry : Registry} {arguments : List WireType} {method : MethodDescription}
  {request response : List Codec} {result : Option Codec}

theorem HasCodecs.returnedValue (h : method.HasCodecs registry arguments request response result)
    (value : Value) : List.Forall₂ (fun out codec =>
      Codec.ofOpen registry arguments out.1 = .ok codec)
      (if method.returnsValue then [(method.result, value)] else []) result.toList := by
  have hresult := h.result
  cases result with
  | none =>
    rw [if_neg (by simp [hresult])]
    exact .nil
  | some codec =>
    rw [if_pos hresult.1]
    exact .cons hresult.2 .nil

theorem HasCodecs.outgoing (h : method.HasCodecs registry arguments request response result)
    (slots : List Value) (value : Value) : List.Forall₂ (fun out codec =>
      Codec.ofOpen registry arguments out.1 = .ok codec) (method.outgoing slots value)
      (response ++ result.toList) := by
  have hresponse : List.Forall₂ (fun out codec =>
      Codec.ofOpen registry arguments out.1 = .ok codec)
      (method.responseParameters.map fun parameter =>
        (parameter.type, slots[parameter.position]?.getD .null)) response :=
    List.forall₂_map_left_iff.mpr h.response
  exact List.rel_append hresponse (h.returnedValue value)

theorem HasCodecs.sentBack (h : method.HasCodecs registry arguments request response result)
    (slots : List Value) (value : Value) : List.Forall₂ (fun out codec =>
      Codec.ofOpen registry arguments out.1 = .ok codec) (method.sentBack slots value)
      (method.sentCodecs response result) := by
  unfold MethodDescription.sentBack sentCodecs
  cases method.style with
  | direct => exact h.outgoing slots value
  | asyncVoid => exact .nil
  | asyncValue => exact h.returnedValue value

theorem HasCodecs.zip_returnedValue
    (h : method.HasCodecs registry arguments request response result) (value : Value) :
    result.toList.map (fun codec => (codec, value)) = result.toList.zip
      ((if method.returnsValue then [(method.result, value)] else []).map (·.2)) := by
  have hresult := h.result
  cases result with
  | none => rfl
  | some codec =>
    rw [if_pos hresult.1]
    rfl

/-- A method that the checks have let pass sends back all that it has to send. -/
theorem Checked.sentBack (hchecked : method.Checked) (slots : List Value) (value : Value) :
    method.sentBack slots value = method.outgoing slots value := by
  obtain ⟨hvoid, _, hbyvalue⟩ := hchecked.style
  unfold MethodDescription.sentBack MethodDescription.outgoing
  cases hstyle : method.style with
  | direct => rfl
  | asyncVoid => simp [hbyvalue (by simp [hstyle]), hvoid hstyle]
  | asyncValue => simp [hbyvalue (by simp [hstyle])]

theorem Checked.sentCodecs (hchecked : method.Checked)
    (h : method.HasCodecs registry arguments request response result) :
    method.sentCodecs response result = response ++ result.toList := by
  obtain ⟨hvoid, _, hbyvalue⟩ := hchecked.style
  have hempty : method.style ≠ .direct → response = [] := by
    intro hstyle
    have hresponse := h.response
    rw [hbyvalue hstyle] at hresponse
    exact List.forall₂_nil_left_iff.mp hresponse
  unfold MethodDescription.sentCodecs
  cases hstyle : method.style with
  | direct => rfl
  | asyncVoid =>
    have hresult := h.result
    cases result with
    | none => simp [hempty (by simp [hstyle])]
    | some codec =>
      rw [hvoid hstyle] at hresult
      cases hresult.1
  | asyncValue => simp [hempty (by simp [hstyle])]

end Codecs

end MethodDescription

/-- The value that a reply comes to. A direct method may not answer with a pending operation. -/
def Reply.settled? (style : RemotingStyle) : Reply → Option Value
  | .value found => some found
  | .pending (.ok found) => if style = .direct then none else some found
  | .pending (.error _) => none

theorem ConcreteHandler.awaitReply_of_settled {style : RemotingStyle} (hstyle : style ≠ .direct)
    {reply : Reply} {value : Value} (h : reply.settled? style = some value) :
    awaitReply reply = .ok value := by
  cases reply with
  | value found =>
    cases h
    rfl
  | pending outcome =>
    cases outcome with
    | error error => cases h
    | ok found =>
      simp only [Reply.settled?, if_neg hstyle, Option.some.injEq] at h
      rw [h]
      rfl

namespace ConcreteHandler

variable {registry : Registry} {arguments : List WireType} {method : MethodDescription}
  {request response : List Codec} {result : Option Codec} {handler : ConcreteHandler}

theorem fields_eq (h : method.HasCodecs registry arguments request response result)
    (slots : List Value) (value : Value) :
    ((method.responseParameters.map (·.position)).zip response).map
        (fun entry => (entry.2, slots[entry.1]?.getD .null)) ++
      result.toList.map (fun codec => (codec, value)) =
    (response ++ result.toList).zip ((method.outgoing slots value).map (·.2)) := by
  have hcount : response.length = (method.returned slots).length := by
    rw [MethodDescription.returned, List.length_map, h.response.length_eq]
  have hresult := h.zip_returnedValue value
  rw [method.map_snd_outgoing, List.zip_append hcount, hresult]
  congr 1
  · refine List.ext_getElem (by simp [MethodDescription.returned, Nat.min_comm]) fun i hi hj => ?_
    simp [MethodDescription.returned]
  · split <;> rfl

/-- An answer that comes to a value is responded to with what is sent back of it. -/
theorem respond_of_settled (h : method.HasCodecs registry arguments request response result)
    (hmethod : handler.method = method)
    (hresponse : handler.response = (method.responseParameters.map (·.position)).zip response)
    (hresult : handler.result = result) {call : MethodCall} {answer : Answer} {value : Value}
    (hvalue : answer.reply.settled? method.style = some value) :
    handler.respond call answer = encodeResponse ((method.sentCodecs response result).zip
      ((method.sentBack (call.assign answer.assignments).slots value).map (·.2))) := by
  have hawait : method.style ≠ .direct → awaitReply answer.reply = .ok value :=
    fun hstyle => awaitReply_of_settled hstyle hvalue
  unfold respond MethodDescription.sentBack MethodDescription.sentCodecs
  rw [hmethod]
  cases hstyle : method.style with
  | direct =>
    cases hreply : answer.reply with
    | value found =>
      rw [hreply, hstyle] at hvalue
      cases hvalue
      rw [← fields_eq h]
      simp only [directResponse, hresponse, hresult]
    | pending outcome =>
      rw [hreply, hstyle] at hvalue
      cases outcome <;> cases hvalue
  | asyncVoid =>
    simp only [hawait (by simp [hstyle])]
    rfl
  | asyncValue =>
    simp only [hawait (by simp [hstyle])]
    show handler.resultResponse value = _
    rw [resultResponse, hresult, h.zip_returnedValue]

/-- A checked method responds with all that it has to send back. -/
theorem respond_eq (h : method.HasCodecs registry arguments request response result)
    (hchecked : method.Checked) (hmethod : handler.method = method)
    (hresponse : handler.response = (method.responseParameters.map (·.position)).zip response)
    (hresult : handler.result = result) {call : MethodCall} {answer : Answer} {value : Value}
    (hvalue : answer.reply.settled? method.style = some value) :
    handler.respond call answer = encodeResponse ((response ++ result.toList).zip
      ((method.outgoing (call.assign answer.assignments).slots value).map (·.2))) := by
  rw [respond_of_settled h hmethod hresponse hresult hvalue, hchecked.sentBack,
    hchecked.sentCodecs h]

end ConcreteHandler

/-- The caller makes of the payload of a direct response what the call has left. -/
theorem ProxyNode.directReply_eq {prepared : PreparedCall} {payload : Bytes} {slots : List Value}
    {value : Value} (hreturns : prepared.plan.returnsValue = prepared.method.returnsValue)
    (hdecode : decodeFields prepared.plan.response payload =
      .ok ((prepared.method.outgoing slots value).map (·.2)) []) :
    directReply prepared payload = .ok (prepared.method.replyOf slots value) := by
  rw [prepared.method.map_snd_outgoing] at hdecode
  unfold directReply
  by_cases hresponse : prepared.method.hasResponse = true
  · rw [if_pos hresponse]
    simp only [CallPlan.readDirect, CallPlan.responseValues, hdecode, hreturns,
      MethodDescription.replyOf]
    by_cases hvalue : prepared.method.returnsValue = true
    · simp [hvalue, bind, Except.bind, pure, Except.pure]
    · simp [hvalue, bind, Except.bind, pure, Except.pure]
  · rw [if_neg hresponse]
    simp only [MethodDescription.hasResponse, Bool.or_eq_true, not_or, Bool.not_eq_true,
      Bool.not_eq_false', List.isEmpty_iff] at hresponse
    simp [MethodDescription.replyOf, MethodDescription.returned, hresponse.1, hresponse.2]

/-- The caller makes of the payload of an asynchronous response the result. -/
theorem CallPlan.readResult_eq {plan : CallPlan} {method : MethodDescription} {payload : Bytes}
    {slots : List Value} {value : Value} (hreturns : method.returnsValue = true)
    (hdecode : decodeFields plan.response payload = .ok ((method.outgoing slots value).map (·.2)) []) :
    plan.readResult payload = .ok value := by
  rw [method.map_snd_outgoing, if_pos hreturns] at hdecode
  simp [readResult, responseValues, hdecode, bind, Except.bind, pure, Except.pure]

end Remoting
