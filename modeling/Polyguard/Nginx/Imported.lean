import Polyguard.Proxy.Startup
import Polyguard.Nginx.Certificates

/-! An imported configuration starts.
A translation ends with the checks of the configuration and of its certificates, asks for no
service and quarantines nothing. With the files as they were and two implementations of each
function the server then starts with what was translated, where the machine gives it its
sockets: a translation takes any listeners with distinct addresses. -/
namespace Polyguard.Nginx
open Ascii Proxy

section Settings
variable {files : Files} {tree : List Directive} {config : Config}

/-- The values that a translation gives whatever it reads. -/
structure Imported (config : Config) : Prop where
  management : config.listener.managementAddress = none
  width : config.listener.agreementImplementations = 2
  quarantined : config.listener.quarantinedImplementations = []
  polyform : config.polyform = none

theorem translate_imported (ok : translate files tree = .ok config) : Imported config := by
  unfold translate at ok
  dsimp only at ok
  split at ok
  · cases ok
  · split at ok
    · obtain ⟨compression,-,ok⟩ := except_bind ok
      obtain ⟨limit,-,ok⟩ := except_bind ok
      split at ok
      · cases ok
      · split at ok
        · cases ok
        · obtain ⟨made,assembles,ok⟩ := except_bind ok
          cases checked : validateConfigFiles files made with
          | error message =>
            rw [checked] at ok
            cases ok
          | ok done =>
            rw [checked] at ok
            cases ok
            obtain ⟨_,-,assembles⟩ := except_bind assembles
            obtain ⟨_,-,assembles⟩ := except_bind assembles
            obtain ⟨_,-,assembles⟩ := except_bind assembles
            dsimp only at assembles
            split at assembles
            · cases assembles
            · split at assembles
              · cases assembles
              · cases assembles
                exact ⟨rfl,rfl,rfl,rfl⟩
    · cases ok

theorem translate_valid (ok : translate files tree = .ok config) : validateConfigFiles files config = .ok () := by
  obtain ⟨http,limit,translation,owners,assembly,passes⟩ := translate_passes ok
  obtain ⟨builds,built⟩ := translate_built ok passes
  exact built.valid

theorem translate_certificates (ok : translate files tree = .ok config) :
    ∀ listener ∈ trafficListeners config, ∀ settings, listener.tls = some settings → files.loadTlsConfig settings = none := by
  obtain ⟨_,-,loaded⟩ := validation_bind (translate_valid ok)
  intro listener member settings given
  have configured : ∃ label, (label,settings) ∈ configuredTls config := by
    rcases List.mem_cons.mp member with rfl | further
    · refine ⟨ascii "listener.tls",List.mem_append_left _ (List.mem_map.mpr ⟨settings,?_,rfl⟩)⟩
      exact Option.mem_toList.mpr given
    · obtain ⟨index,placed⟩ := indexed_mem further
      refine ⟨indexed (ascii "listeners") index ++ ascii ".tls",List.mem_append_right _ (List.mem_filterMap.mpr ⟨(listener,index),placed,?_⟩)⟩
      dsimp only
      rw [given]
      rfl
  obtain ⟨label,entry⟩ := configured
  have checked := forM_ok loaded _ entry
  dsimp only at checked
  cases fault : files.loadTlsConfig settings with
  | none => rfl
  | some text =>
    rw [fault] at checked
    cases checked

end Settings

section Starts
variable {Key Client Operation : Type} {registry : List (Implementation Operation)} {loading : Loading Key Client}
  {files : Files} {tree : List Directive} {config : Config}

/-- The server finds the files that the translation has found. -/
structure SameFiles (files : Files) (loading : Loading Key Client) : Prop where
  directories : loading.isDirectory = files.isDirectory
  roots : ∀ directory, loading.isDirectory directory → (loading.canonicalize directory).isSome
  certificates : ∀ settings, files.loadTlsConfig settings = none → (loadTlsConfig loading.certificate (some settings)).isSome

theorem loadListenerTls_listens {certificate : List UInt8 → List UInt8 → Option Key} {tls : ListenerTls Key}
    (loaded : loadListenerTls certificate config = some tls) {listener : AdditionalListenerConfig}
    (member : listener ∈ trafficListeners config) : ∃ address ∈ tls.map Prod.fst, parseSocketAddr listener.address = some address := by
  obtain ⟨entries,made,rfl⟩ := insertListenerTls_entries loaded
  have sized : (trafficListeners config).length = entries.length := made.length_eq
  obtain ⟨index,inside,rfl⟩ := List.getElem_of_mem member
  refine ⟨_,?_,(made.get inside (by omega)).1⟩
  rw [List.append_nil,List.map_reverse,List.mem_reverse]
  exact List.mem_map_of_mem (List.getElem_mem (by omega))

/-- A configuration that was imported starts, over the files it was translated from, exactly where its listeners can be bound in the
order of their addresses: on all of them, without a service or a management listener, and with an address for each upstream
of its routes. -/
theorem imported_configurations_start (unique : (registry.map (·.id)).Nodup)
    (staffed : ∀ function ∈ Polyform.specFunctions, 2 ≤ (Polyform.implementers registry function).length)
    (translated : translate files tree = .ok config) {required reportTelemetry : Bool}
    (given : loading.source = some ⟨config,required,reportTelemetry⟩) (same : SameFiles files loading) (host : Host) :
    ((startServer registry loading host).isSome ↔ Bindable host (sockets config)) ∧
    ∀ state, startServer registry loading host = some state → state.live.config.toConfig = config ∧ state.live.polyform = none ∧
      state.management = none ∧ (∀ listener ∈ trafficListeners config, ∃ address ∈ state.bound,
        parseSocketAddr listener.address = some address) ∧
      ∀ route ∈ state.live.routes, ∀ upstream replaces hostHeader, route.action = .proxy upstream replaces hostHeader →
        ∃ address, (upstream,address) ∈ state.live.upstreams := by
  have imported := translate_imported translated
  obtain ⟨_,valid,-⟩ := validation_bind (translate_valid translated)
  have startable : Startable registry loading ⟨config,required,reportTelemetry⟩ := by
    refine ⟨?_,?_,?_⟩
    · intro listener member
      cases settings : listener.tls with
      | none => rfl
      | some tls => exact same.certificates tls (translate_certificates translated listener member tls settings)
    · intro settings asked
      rw [imported.polyform] at asked
      cases asked
    · intro function spec
      have enough := staffed function spec
      rw [Polyform.implementers,List.length_map] at enough
      simpa [available,imported.width,imported.quarantined] using enough
  constructor
  · rw [startServer_isSome unique same.roots host]
    constructor
    · rintro ⟨read,found,-,-,hosted⟩
      obtain rfl := Option.some.inj (found.symm.trans given)
      exact hosted.bindable
    · intro bindable
      refine ⟨_,given,by rw [same.directories]; exact valid,startable,bindable,?_⟩
      rw [imported.management]
      exact nofun
  · intro state server
    obtain ⟨generation,management,started,-,rfl⟩ := startServer_iff.mp server
    obtain ⟨-,upstreams⟩ := startGeneration_upstreams started
    simp only [startGeneration,Option.bind_eq_bind,Option.bind_eq_some_iff] at started
    obtain ⟨read,found,_,checked,address,managed,tls,loaded,polyform,registered,made,built,rest⟩ := started
    obtain rfl := Option.some.inj (found.symm.trans given)
    cases rest
    obtain ⟨-,configured,kept,client,-⟩ := buildRuntime_some built
    have alone : management = none := by
      rw [managementAddress,imported.management] at managed
      exact (Option.some.inj managed).symm
    have unserved : polyform = none := by
      rw [initializePolyform,imported.polyform] at registered
      exact (Option.some.inj registered).symm
    subst alone unserved
    refine ⟨by rw [Server.initial,configured],client,rfl,?_,upstreams⟩
    rw [Server.initial,kept]
    exact fun listener member => loadListenerTls_listens loaded member

/-- The files of a host whose certificates all load, with the loading of a server on it. -/
def hostFiles : Files :=
  ⟨fun _ => true,fun settings => if (loadTlsConfig (fun chain _ => some chain) (some settings)).isSome then none else some (ascii "invalid")⟩

def hostLoading (config : Config) : Loading (List UInt8) Unit :=
  ⟨some ⟨config,false,false⟩,fun _ => true,some,fun chain _ => some chain,fun _ => none,fun _ _ => none⟩

theorem imported_configurations_start_secured : ∃ config, translate hostFiles securedTree = .ok config ∧
    (startServer Server.serverRegistry (hostLoading config) freeHost).isSome := by
  have bound : ((translate hostFiles securedTree).toOption.any fun config =>
      (bindListeners freeHost [] (sockets config)).isSome) = true := by decide +kernel
  obtain ⟨config,translated,binds⟩ := (Option.any_eq_true _ _).mp bound
  have made : translate hostFiles securedTree = .ok config := by
    cases result : translate hostFiles securedTree with
    | ok other =>
      rw [result] at translated
      exact congrArg Except.ok (Option.some.inj translated)
    | error message =>
      rw [result] at translated
      cases translated
  have same : SameFiles hostFiles (hostLoading config) := by
    refine ⟨rfl,fun _ _ => rfl,?_⟩
    intro settings loads
    unfold hostFiles at loads
    dsimp only at loads
    split at loads
    · assumption
    · cases loads
  obtain ⟨starts,-⟩ := @imported_configurations_start _ _ _ Server.serverRegistry (hostLoading config) hostFiles securedTree config
    (by decide) (by decide +kernel) made false false rfl same freeHost
  obtain ⟨after,given⟩ := Option.isSome_iff_exists.mp binds
  exact ⟨config,made,starts.mpr (bindListeners_iff.mp given).2⟩

/-- A server on every address of a port and on a single address of it. -/
def shadowedTree : List Directive :=
  [blockDirective "events" [] [],blockDirective "http" []
    [blockDirective "server" [] [leafDirective "listen" ["8080"],leafDirective "listen" ["127.0.0.1:8080"],
      blockDirective "location" ["/"] [leafDirective "return" ["200","any"]]]]]

-- the two listeners are distinct, so that they are translated, and the second socket is not given beside the first one
example : ((translate hostFiles shadowedTree).toOption.any fun config =>
    (startGeneration Server.serverRegistry (hostLoading config)).isSome &&
      (startServer Server.serverRegistry (hostLoading config) freeHost).isNone) = true := by
  decide +kernel

end Starts
end Polyguard.Nginx
