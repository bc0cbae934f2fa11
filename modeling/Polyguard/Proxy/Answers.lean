import Polyguard.Proxy.Boundaries

/-! What a processed request is answered with.
A run that ends well has admitted the request, and the last bytes of its record are those
that the action of the chosen route gives. -/
namespace Polyguard.Proxy

variable {gateway : Gateway} {client : Client} {around : Surroundings}

theorem selectedRoute_listed {routes : List RuntimeRoute} {authority : EffectiveAuthority} {target : NormalizedTarget}
    {method scheme : List UInt8} {route : RuntimeRoute} (selected : selectedRoute routes authority target method scheme = .ok route) :
    route ∈ routes := by
  unfold selectedRoute at selected
  dsimp only at selected
  split at selected
  · cases selected
  · split at selected
    · cases selected
    · rename_i found
      cases selected
      obtain ⟨index,-,placed⟩ := Option.bind_eq_some_iff.mp found
      exact List.mem_of_getElem? placed

theorem admitRequest_listed {connection after : Connection} {admitted : Admitted}
    (ran : admitRequest gateway client around connection = .ok admitted after) : admitted.route ∈ gateway.routes := by
  obtain ⟨⟨head,remainder,request,headers⟩,_,-,ran⟩ := serving_bind ran
  obtain ⟨framing,_,-,ran⟩ := serving_bind ran
  obtain ⟨expects,_,-,ran⟩ := serving_bind ran
  obtain ⟨target,_,-,ran⟩ := serving_bind ran
  obtain ⟨authority,_,-,ran⟩ := serving_bind ran
  split at ran
  · cases ran
  · obtain ⟨sanitized,_,-,ran⟩ := serving_bind ran
    obtain ⟨upgrade,_,-,ran⟩ := serving_bind ran
    split at ran
    · cases ran
    · obtain ⟨route,_,selected,ran⟩ := serving_bind ran
      obtain ⟨_,_,-,ran⟩ := serving_bind ran
      split at ran
      · cases ran
      · obtain ⟨forwarding,_,-,ran⟩ := serving_bind ran
        cases ran
        obtain ⟨chosen,_,found,selected⟩ := serving_bind selected
        obtain ⟨guarded,_,-,selected⟩ := serving_bind selected
        split at selected
        · cases selected
        · cases selected
          exact selectedRoute_listed (serving_except found).1

variable (gateway around)

/-- The exchange that an admitted request asks for. -/
def upstreamExchange (admitted : Admitted) : UpstreamExchange :=
  ⟨around.upstream,admitted.request.method,clientAcceptsGzip admitted.headers,clientAllowsKeepAlive admitted.headers,
    admitted.route.responseHeaders,admitted.context,around.upstreamBudgets⟩

/-- The bytes that the action of an admitted request sends to the client. -/
def answerBytes (admitted : Admitted) : Outcome (List UInt8) :=
  match admitted.route.action with
  | .redirect status location => redirectBytes admitted status location
  | .respond status body contentType => respondBytes gateway around admitted status body contentType
  | .files _ _ _ _ _ => staticBytes gateway around admitted
  | .proxy _ _ _ =>
    match exchanged gateway.runtime (upstreamExchange around admitted) with
    | .ok response _ => .ok (response.head ++ response.body)
    | .error fault _ => .error fault

variable {gateway around}

/-- The client has been sent these bytes last. -/
def Replied (connection : Connection) (bytes : List UInt8) : Prop := ∃ events, connection.events = events ++ [.replied bytes]

theorem answerLocally_replied {admitted : Admitted} {response : Outcome (List UInt8)} {keeps : Bool} {connection after : Connection}
    (ran : answerLocally around admitted response connection = .ok keeps after) : ∃ bytes, response = .ok bytes ∧ Replied after bytes := by
  obtain ⟨bytes,first,given,ran⟩ := serving_bind ran
  obtain ⟨answered,rfl⟩ := serving_except given
  obtain ⟨_,second,replied,ran⟩ := serving_bind ran
  cases ran
  exact ⟨bytes,answered,_,by rw [reply_ok replied]⟩

theorem forwardRequest_replied {admitted : Admitted} {upstream : List UInt8} {replaces hostHeader : Option (List UInt8)}
    {keeps : Bool} {connection after : Connection}
    (ran : forwardRequest gateway client around admitted upstream replaces hostHeader connection = .ok keeps after) :
    ∃ response rest, exchanged gateway.runtime (upstreamExchange around admitted) = .ok response rest ∧
      Replied after (response.head ++ response.body) := by
  unfold forwardRequest at ran
  obtain ⟨_,_,-,ran⟩ := serving_bind ran
  obtain ⟨fields,_,-,ran⟩ := serving_bind ran
  split at ran
  · cases ran
  · obtain ⟨_,_,-,ran⟩ := serving_bind ran
    obtain ⟨body,_,-,ran⟩ := serving_bind ran
    obtain ⟨extra,_,-,ran⟩ := serving_bind ran
    split at ran
    · cases ran
    · split at ran
      · cases ran
      · obtain ⟨target,_,-,ran⟩ := serving_bind ran
        obtain ⟨canonical,_,-,ran⟩ := serving_bind ran
        obtain ⟨response,_,sent,ran⟩ := serving_bind ran
        obtain ⟨_,_,replied,ran⟩ := serving_bind ran
        cases ran
        obtain ⟨_,_,-,sent⟩ := serving_bind sent
        change (match exchanged gateway.runtime (upstreamExchange around admitted) with
          | .ok response _ => (pure response : Serving UpstreamResponse)
          | .error fault _ => throw fault) _ = _ at sent
        cases answer : exchanged gateway.runtime (upstreamExchange around admitted) with
        | ok found rest =>
          rw [answer] at sent
          cases sent
          exact ⟨response,rest,rfl,_,by rw [reply_ok replied]⟩
        | error fault rest =>
          rw [answer] at sent
          cases sent

theorem processRequest_answers {keeps : Bool} {connection after : Connection}
    (ran : processRequest gateway client around connection = .ok keeps after) :
    ∃ admitted middle bytes, admitRequest gateway client around connection = .ok admitted middle ∧
      answerBytes gateway around admitted = .ok bytes ∧ Replied after bytes := by
  obtain ⟨admitted,middle,admits,ran⟩ := serving_bind ran
  refine ⟨admitted,middle,?_⟩
  unfold answerBytes
  cases action : admitted.route.action with
  | redirect status location =>
    rw [action] at ran
    obtain ⟨bytes,answered,replied⟩ := answerLocally_replied ran
    exact ⟨bytes,admits,answered,replied⟩
  | respond status body contentType =>
    rw [action] at ran
    obtain ⟨bytes,answered,replied⟩ := answerLocally_replied ran
    exact ⟨bytes,admits,answered,replied⟩
  | files =>
    rw [action] at ran
    obtain ⟨bytes,answered,replied⟩ := answerLocally_replied ran
    exact ⟨bytes,admits,answered,replied⟩
  | proxy upstream replaces hostHeader =>
    rw [action] at ran
    obtain ⟨response,rest,answered,replied⟩ := forwardRequest_replied ran
    rw [answered]
    exact ⟨_,admits,rfl,replied⟩

theorem processRequest_responds {admitted : Admitted} {connection middle : Connection} {status : Nat} {body contentType bytes : List UInt8}
    (admits : admitRequest gateway client around connection = .ok admitted middle)
    (action : admitted.route.action = .respond status body contentType)
    (answered : respondBytes gateway around admitted status body contentType = .ok bytes) (takes : around.takesResponse = .whole) :
    ∃ keeps after, processRequest gateway client around connection = .ok keeps after := by
  have replied : reply around.takesResponse bytes middle = .ok () ⟨middle.client,middle.events ++ [.replied bytes]⟩ := by
    rw [takes]
    rfl
  have written : answerLocally around admitted (.ok bytes) middle =
      (reply around.takesResponse bytes >>= fun _ => pure (keepsAlive admitted)) middle := rfl
  unfold processRequest
  rw [Fallible.run_bind_ok admits,action]
  dsimp only
  rw [answered,written,Fallible.run_bind_ok replied]
  exact ⟨_,_,rfl⟩

end Polyguard.Proxy
