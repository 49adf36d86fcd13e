import NdimonR.Types.Encode
import Mathlib

/-! Every section but the plugins is determined by its JSON value, null members aside. -/

namespace NdimonR.Types

open Json

theorem natKey_injective : Function.Injective natKey := fun _ _ h => Nat.repr_injective h

theorem named_solid {α : Type} (text : α → String) : Solid (named text) :=
  ⟨fun a => str_solid.ne_null (text a)⟩

theorem strings_faithful : Faithful (ofItems Value.str) := ofItems_faithful str_faithful

theorem optional_str_faithful : Faithful (ofOption Value.str) :=
  ofOption_faithful str_faithful str_solid

theorem optional_nat_faithful : Faithful (ofOption Value.nat) :=
  ofOption_faithful nat_faithful nat_solid

theorem OperationMode.text_injective : Function.Injective OperationMode.text := by
  intro a b h
  cases a <;> cases b <;> first | rfl | simp [OperationMode.text] at h

theorem DecodeMode.text_injective : Function.Injective DecodeMode.text := by
  intro a b h
  cases a <;> cases b <;> first | rfl | simp [DecodeMode.text] at h

theorem WatchdogMode.text_injective : Function.Injective WatchdogMode.text := by
  intro a b h
  cases a <;> cases b <;> first | rfl | simp [WatchdogMode.text] at h

theorem Weekday.text_injective : Function.Injective Weekday.text := by
  intro a b h
  cases a <;> cases b <;> first | rfl | simp [Weekday.text] at h

theorem ScaleMode.text_injective : Function.Injective ScaleMode.text := by
  intro a b h
  cases a <;> cases b <;> first | rfl | simp [ScaleMode.text] at h

theorem ScreenSaver.text_injective : Function.Injective ScreenSaver.text := by
  intro a b h
  cases a <;> cases b <;> first | rfl | simp [ScreenSaver.text] at h

theorem TallyMode.text_injective : Function.Injective TallyMode.text := by
  intro a b h
  cases a <;> cases b <;> first | rfl | simp [TallyMode.text] at h

theorem ColorSpace.text_injective : Function.Injective ColorSpace.text := by
  intro a b h
  cases a <;> cases b <;> first | rfl | simp [ColorSpace.text] at h

theorem Transport.text_injective : Function.Injective Transport.text := by
  intro a b h
  cases a <;> cases b <;> first | rfl | simp [Transport.text] at h

theorem AudioEngine.text_injective : Function.Injective AudioEngine.text := by
  intro a b h
  cases a <;> cases b <;> first | rfl | simp [AudioEngine.text] at h

theorem EndpointType.text_injective : Function.Injective EndpointType.text := by
  intro a b h
  cases a <;> cases b <;> first | rfl | simp [EndpointType.text] at h

theorem NetworkBackend.text_injective : Function.Injective NetworkBackend.text := by
  intro a b h
  cases a <;> cases b <;> first | rfl | simp [NetworkBackend.text] at h

theorem AddressMode.text_injective : Function.Injective AddressMode.text := by
  intro a b h
  cases a <;> cases b <;> first | rfl | simp [AddressMode.text] at h

theorem ConfirmPolicy.text_injective : Function.Injective ConfirmPolicy.text := by
  intro a b h
  cases a <;> cases b <;> first | rfl | simp [ConfirmPolicy.text] at h

theorem Direction.text_injective : Function.Injective Direction.text := by
  intro a b h
  cases a <;> cases b <;> first | rfl | simp [Direction.text] at h

theorem ClockRole.text_injective : Function.Injective ClockRole.text := by
  intro a b h
  cases a <;> cases b <;> first | rfl | simp [ClockRole.text] at h

theorem Backdrop.text_injective : Function.Injective Backdrop.text := by
  intro a b h
  cases a <;> cases b <;> first | rfl | simp [Backdrop.text] at h

theorem reboot_schedule_faithful : Faithful rebootScheduleJson := by
  have days := ofItems_faithful (named_faithful Weekday.text_injective)
  refine record_faithful (by decide) fun a b h => ?_
  simp only [List.forall_mem_cons, present_getD, bool_faithful.eq_iff, str_faithful.eq_iff,
    days.eq_iff] at h
  cases a
  cases b
  simp_all

theorem about_faithful : Faithful aboutJson := by
  refine record_faithful (by decide) fun a b h => ?_
  simp only [List.forall_mem_cons, present_getD, str_faithful.eq_iff] at h
  cases a
  cases b
  simp_all

theorem device_faithful : Faithful deviceJson := by
  have mode := named_faithful OperationMode.text_injective
  have decodeMode := named_faithful DecodeMode.text_injective
  have watchdogMode := named_faithful WatchdogMode.text_injective
  refine record_faithful (by decide) fun a b h => ?_
  simp only [List.forall_mem_cons, present_getD, str_faithful.eq_iff, mode.eq_iff,
    decodeMode.eq_iff, watchdogMode.eq_iff, reboot_schedule_faithful.eq_iff,
    about_faithful.eq_iff, nat_faithful.eq_iff, strings_faithful.eq_iff, bool_faithful.eq_iff] at h
  cases a
  cases b
  simp_all

theorem ndi_source_ref_faithful : Faithful ndiSourceRefJson := by
  refine record_faithful (by decide) fun a b h => ?_
  simp only [List.forall_mem_cons, present_getD, str_faithful.eq_iff] at h
  cases a
  cases b
  simp_all

theorem mode_faithful : Faithful modeJson := by
  refine record_faithful (by decide) fun a b h => ?_
  simp only [List.forall_mem_cons, present_getD, nat_faithful.eq_iff, float_faithful.eq_iff] at h
  obtain ⟨hw, hh, hr, _⟩ := h
  exact Prod.ext hw (Prod.ext hh hr)

theorem resolution_faithful : Faithful resolutionJson := by
  constructor
  intro a b h
  cases a with
  | auto =>
    cases b with
    | auto => rfl
    | mode => exact absurd h.symm (tagged_ne_str _ _ _ _)
  | mode w1 h1 r1 =>
    cases b with
    | auto => exact absurd h (tagged_ne_str _ _ _ _)
    | mode w2 h2 r2 =>
      have := (tagged_faithful "mode" mode_faithful).inj _ _ h
      simp_all

theorem output_video_faithful : Faithful outputVideoJson := by
  have scaleMode := named_faithful ScaleMode.text_injective
  refine record_faithful (by decide) fun a b h => ?_
  simp only [List.forall_mem_cons, present_getD, resolution_faithful.eq_iff, scaleMode.eq_iff,
    nat_faithful.eq_iff] at h
  cases a
  cases b
  simp_all

theorem output_faithful : Faithful outputJson := by
  have source := ofOption_faithful ndi_source_ref_faithful (record_solid _)
  have screensaver := named_faithful ScreenSaver.text_injective
  refine record_faithful (by decide) fun a b h => ?_
  simp only [List.forall_mem_cons, present_getD, str_faithful.eq_iff, source.eq_iff,
    output_video_faithful.eq_iff, screensaver.eq_iff] at h
  cases a
  cases b
  simp_all

theorem ndi_faithful : Faithful ndiJson := by
  have receive := named_faithful Transport.text_injective
  have tally := named_faithful TallyMode.text_injective
  have colorSpace := named_faithful ColorSpace.text_injective
  refine record_faithful (by decide) fun a b h => ?_
  simp only [List.forall_mem_cons, present_getD, receive.eq_iff, strings_faithful.eq_iff,
    tally.eq_iff, colorSpace.eq_iff, bool_faithful.eq_iff] at h
  cases a
  cases b
  simp_all

theorem audio_engine_settings_faithful : Faithful audioEngineSettingsJson := by
  refine record_faithful (by decide) fun a b h => ?_
  simp only [List.forall_mem_cons, present_getD, bool_faithful.eq_iff, nat_faithful.eq_iff,
    str_faithful.eq_iff] at h
  cases a
  cases b
  simp_all

theorem audio_source_faithful : Faithful audioSourceJson := by
  have kind := named_faithful EndpointType.text_injective
  refine record_faithful (by decide) fun a b h => ?_
  simp only [List.forall_mem_cons, present_getD, kind.eq_iff, bool_faithful.eq_iff,
    nat_faithful.eq_iff, optional_nat_faithful.eq_iff, optional_str_faithful.eq_iff,
    str_faithful.eq_iff, float_faithful.eq_iff] at h
  cases a
  cases b
  simp_all

theorem audio_sink_faithful : Faithful audioSinkJson := by
  have mix := ofMap_faithful Function.injective_id float_faithful float_solid
  refine record_faithful (by decide) fun a b h => ?_
  simp only [List.forall_mem_cons, present_getD, bool_faithful.eq_iff, nat_faithful.eq_iff,
    str_faithful.eq_iff, mix.eq_iff] at h
  cases a
  cases b
  simp_all

theorem audio_route_faithful : Faithful audioRouteJson := by
  refine record_faithful (by decide) fun a b h => ?_
  simp only [List.forall_mem_cons, present_getD, nat_faithful.eq_iff, str_faithful.eq_iff,
    bool_faithful.eq_iff, float_faithful.eq_iff] at h
  cases a
  cases b
  simp_all

theorem audio_input_faithful : Faithful audioInputJson := by
  refine record_faithful (by decide) fun a b h => ?_
  simp only [List.forall_mem_cons, present_getD, str_faithful.eq_iff, float_faithful.eq_iff,
    nat_faithful.eq_iff] at h
  cases a
  cases b
  simp_all

theorem audio_destination_faithful : Faithful audioDestinationJson := by
  refine record_faithful (by decide) fun a b h => ?_
  simp only [List.forall_mem_cons, present_getD, str_faithful.eq_iff, nat_faithful.eq_iff] at h
  cases a
  cases b
  simp_all

theorem audio_definitions_faithful : Faithful audioDefinitionsJson := by
  have sources := ofMap_faithful Function.injective_id audio_source_faithful (record_solid _)
  have sinks := ofMap_faithful Function.injective_id audio_sink_faithful (record_solid _)
  refine record_faithful (by decide) fun a b h => ?_
  simp only [List.forall_mem_cons, present_getD, sources.eq_iff, sinks.eq_iff] at h
  cases a
  cases b
  simp_all

theorem output_audio_faithful : Faithful outputAudioJson := by
  have inputs := ofItems_faithful audio_input_faithful
  have destinations := ofItems_faithful audio_destination_faithful
  refine record_faithful (by decide) fun a b h => ?_
  simp only [List.forall_mem_cons, present_getD, bool_faithful.eq_iff, inputs.eq_iff,
    destinations.eq_iff, audio_definitions_faithful.eq_iff] at h
  cases a
  cases b
  simp_all

theorem audio_faithful : Faithful audioJson := by
  have engine := named_faithful AudioEngine.text_injective
  have sources := ofMap_faithful Function.injective_id audio_source_faithful (record_solid _)
  have sinks := ofMap_faithful Function.injective_id audio_sink_faithful (record_solid _)
  have outputs := ofMap_faithful natKey_injective output_audio_faithful (record_solid _)
  have routes := ofMap_faithful Function.injective_id audio_route_faithful (record_solid _)
  refine record_faithful (by decide) fun a b h => ?_
  simp only [List.forall_mem_cons, present_getD, engine.eq_iff,
    audio_engine_settings_faithful.eq_iff, sources.eq_iff, sinks.eq_iff, outputs.eq_iff,
    routes.eq_iff, nat_faithful.eq_iff] at h
  cases a
  cases b
  simp_all

theorem network_roles_faithful : Faithful networkRolesJson := by
  refine record_faithful (by decide) fun a b h => ?_
  simp only [List.forall_mem_cons, present_getD, str_faithful.eq_iff] at h
  cases a
  cases b
  simp_all

theorem network_profile_faithful : Faithful networkProfileJson := by
  have mode := named_faithful AddressMode.text_injective
  refine record_faithful (by decide) fun a b h => ?_
  have search : a.dnsSearch = b.dnsSearch :=
    nonempty_inj str_faithful NetworkProfile.dnsSearch
      (h ("dns_search", nonempty .str (·.dnsSearch)) (by simp))
  simp only [List.forall_mem_cons, present_getD, str_faithful.eq_iff,
    optional_nat_faithful.eq_iff, mode.eq_iff, nat_faithful.eq_iff, strings_faithful.eq_iff] at h
  cases a
  cases b
  simp_all

theorem network_profiles_faithful : Faithful networkProfilesJson := by
  have backend := ofOption_faithful (named_faithful NetworkBackend.text_injective) (named_solid _)
  have networks := ofItems_faithful network_profile_faithful
  have confirmPolicy := named_faithful ConfirmPolicy.text_injective
  refine record_faithful (by decide) fun a b h => ?_
  simp only [List.forall_mem_cons, present_getD, str_faithful.eq_iff, backend.eq_iff,
    networks.eq_iff, network_roles_faithful.eq_iff, confirmPolicy.eq_iff] at h
  cases a
  cases b
  simp_all

theorem tessera_device_faithful : Faithful tesseraDeviceJson := by
  have rxLabels := ofMap_faithful natKey_injective str_faithful str_solid
  refine record_faithful (by decide) fun a b h => ?_
  simp only [List.forall_mem_cons, present_getD, str_faithful.eq_iff, nat_faithful.eq_iff,
    rxLabels.eq_iff, bool_faithful.eq_iff] at h
  cases a
  cases b
  simp_all

theorem tessera_clock_faithful : Faithful tesseraClockJson := by
  have role := named_faithful ClockRole.text_injective
  refine record_faithful (by decide) fun a b h => ?_
  simp only [List.forall_mem_cons, present_getD, role.eq_iff, nat_faithful.eq_iff] at h
  cases a
  cases b
  simp_all

theorem tessera_flow_faithful : Faithful tesseraFlowJson := by
  have direction := named_faithful Direction.text_injective
  refine record_faithful (by decide) fun a b h => ?_
  simp only [List.forall_mem_cons, present_getD, str_faithful.eq_iff, direction.eq_iff,
    optional_str_faithful.eq_iff, nat_faithful.eq_iff, bool_faithful.eq_iff,
    optional_nat_faithful.eq_iff] at h
  cases a
  cases b
  simp_all

theorem tessera_faithful : Faithful tesseraJson := by
  have flows := ofItems_faithful tessera_flow_faithful
  have locks := ofMap_faithful Function.injective_id str_faithful str_solid
  refine record_faithful (by decide) fun a b h => ?_
  simp only [List.forall_mem_cons, present_getD, bool_faithful.eq_iff,
    tessera_device_faithful.eq_iff, tessera_clock_faithful.eq_iff, flows.eq_iff, locks.eq_iff,
    optional_str_faithful.eq_iff] at h
  cases a
  cases b
  simp_all

theorem asset_ref_faithful : Faithful assetRefJson := by
  refine record_faithful (by decide) fun a b h => ?_
  simp only [List.forall_mem_cons, present_getD, str_faithful.eq_iff] at h
  cases a
  cases b
  simp_all

theorem splash_faithful : Faithful splashJson := by
  have logo := ofOption_faithful asset_ref_faithful (record_solid _)
  have backdrop := named_faithful Backdrop.text_injective
  refine record_faithful (by decide) fun a b h => ?_
  simp only [List.forall_mem_cons, present_getD, str_faithful.eq_iff, logo.eq_iff,
    float_faithful.eq_iff, backdrop.eq_iff, bool_faithful.eq_iff] at h
  cases a
  cases b
  simp_all

theorem osd_faithful : Faithful osdJson := by
  refine record_faithful (by decide) fun a b h => ?_
  simp only [List.forall_mem_cons, present_getD, bool_faithful.eq_iff, str_faithful.eq_iff] at h
  cases a
  cases b
  simp_all

theorem display_faithful : Faithful displayJson := by
  refine record_faithful (by decide) fun a b h => ?_
  simp only [List.forall_mem_cons, present_getD, splash_faithful.eq_iff, osd_faithful.eq_iff] at h
  cases a
  cases b
  simp_all

theorem preset_faithful : Faithful presetJson := by
  refine record_faithful (by decide) fun a b h => ?_
  simp only [List.forall_mem_cons, present_getD, optional_getD, ndi_source_ref_faithful.eq_iff,
    optional_nat_faithful.eq_iff] at h
  cases a
  cases b
  simp_all

end NdimonR.Types
