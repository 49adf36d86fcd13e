import NdimonR.Backend.IfupdownStanzas

/-! The stanzas of a profile's interfaces, as its two files have them and as the reader finds them
among the other included files. -/

namespace NdimonR.Backend.Ifupdown

open Types Text Engine Backend

/-! ### The bytes of a text -/

theorem toList_loop (b : ByteArray) (i : Nat) (r : List UInt8) :
    ByteArray.toList.loop b i r = r.reverse ++ b.data.toList.drop i := by
  fun_induction ByteArray.toList.loop b i r with
  | case1 i r h ih =>
    have hi : i < b.data.toList.length := by simpa using h
    have hget : b.get! i = b.data.toList[i] := by
      have hsize : i < b.data.size := by simpa using hi
      exact (getElem!_pos b.data i hsize).trans (Array.getElem_toList hsize).symm
    rw [ih, List.drop_eq_getElem_cons hi, hget]
    simp
  | case2 i r h =>
    have hi : b.data.toList.length ≤ i := by simpa using h
    rw [List.drop_eq_nil_of_le hi]
    simp

theorem decode_text (text : String) (mode : Nat) :
    decode (some (Image.ofText text mode)) = .ok (some text) := by
  have hbytes : (⟨text.toUTF8.toList.toArray⟩ : ByteArray) = text.toUTF8 := by
    rw [ByteArray.toList, toList_loop]
    simp
  have hvalid : text.toUTF8.IsValidUTF8 := text.isValidUTF8
  have hread : String.fromUTF8? ⟨text.toUTF8.toList.toArray⟩ = some text := by
    rw [hbytes, String.fromUTF8?, dif_pos hvalid]
    rfl
  simp only [decode, Image.ofText, hread]

/-! ### The blocks of a profile -/

def rowBlock (p : NetworkProfiles) (m : Metadata) (n : NetworkProfile) : Block where
  name := ifname p n
  method := method n.mode
  values := stanzaValues p m n

def parentBlock (p : NetworkProfiles) (m : Metadata) : Block :=
  match (p.networks.filter (·.vlanId.isNone)).getLast? with
  | some n => rowBlock p m n
  | none => { name := p.interface, method := "manual", values := [] }

def vlanBlocks (p : NetworkProfiles) (m : Metadata) : List Block :=
  (p.networks.filter (·.vlanId.isSome)).map (rowBlock p m)

theorem plain_method (mode : AddressMode) : Plain (method mode) := by
  cases mode <;> exact ⟨by decide, by decide⟩

/-- The keys a stanza may have, in the order they are written. -/
def stanzaKeys : List String :=
  ["vlan-raw-device"] ++ (["address"] ++ ["gateway"] ++ ["dns-nameservers"]) ++ ["dns-search"] ++
    ["metric"]

theorem stanzaKeys_free {k : String} (h : k ∈ stanzaKeys) : Plain k ∧
    k ∉ ["auto", "allow-auto", "allow-hotplug", "source", "source-directory", "iface"] := by
  simp only [stanzaKeys, List.cons_append, List.nil_append, List.mem_cons, List.not_mem_nil,
    or_false] at h
  rcases h with rfl | rfl | rfl | rfl | rfl | rfl <;> exact ⟨⟨by decide, by decide⟩, by decide⟩

theorem mem_ite_singleton {α : Type} {c : Prop} [Decidable c] {a b : α}
    (h : a ∈ if c then [b] else []) : c ∧ a = b := by
  split at h
  · exact ⟨‹c›, List.mem_singleton.mp h⟩
  · cases h

theorem ite_keys {c : Prop} [Decidable c] (k v : String) :
    ((if c then [(k, v)] else []).map Prod.fst).Sublist [k] := by
  split <;> simp

theorem stanzaValues_keys (p : NetworkProfiles) (m : Metadata) (n : NetworkProfile) :
    ((stanzaValues p m n).map Prod.fst).Sublist stanzaKeys := by
  have haddress : ((if n.mode = .static then
      [("address", n.address ++ "/" ++ toString n.prefixLen)] ++
      (if n.gateway ≠ "" then [("gateway", n.gateway)] else []) ++
      (if n.dns ≠ [] then [("dns-nameservers", unwords n.dns)] else [])
      else []).map Prod.fst).Sublist (["address"] ++ ["gateway"] ++ ["dns-nameservers"]) := by
    split
    · rw [List.map_append, List.map_append]
      exact ((List.Sublist.refl _).append (ite_keys _ _)).append (ite_keys _ _)
    · simp
  rw [stanzaValues, List.map_append, List.map_append, List.map_append]
  exact (((ite_keys _ _).append haddress).append (ite_keys _ _)).append (List.Sublist.refl _)

/-- The values of a row's stanza are plain words. -/
theorem stanzaValues_words {p : NetworkProfiles} (h : NetworkValid p) (m : Metadata)
    {n : NetworkProfile} (hn : n ∈ p.networks) :
    ∀ e ∈ stanzaValues p m n, ∃ ws, Words ws ∧ e.2 = unwords ws := by
  have hrow := rowPlain_of_valid (h.rows n hn)
  have hword : ∀ v : String, Plain v → ∃ ws, Words ws ∧ v = unwords ws :=
    fun v hv => ⟨[v], words_singleton hv, by simp [unwords]⟩
  intro e he
  rcases List.mem_append.mp he with he | he
  · rcases List.mem_append.mp he with he | he
    · rcases List.mem_append.mp he with he | he
      · obtain ⟨-, rfl⟩ := mem_ite_singleton he
        exact hword _ (plain_interface h)
      · split at he
        · rename_i hm
          rcases List.mem_append.mp he with he | he
          · rcases List.mem_append.mp he with he | he
            · rw [List.mem_singleton.mp he]
              exact hword _ (plain_cidr (hrow.address hm))
            · obtain ⟨hg, rfl⟩ := mem_ite_singleton he
              exact hword _ (hrow.gateway hg)
          · obtain ⟨hd, rfl⟩ := mem_ite_singleton he
            exact ⟨n.dns, ⟨hd, hrow.dns⟩, rfl⟩
        · cases he
    · obtain ⟨hs, rfl⟩ := mem_ite_singleton he
      exact ⟨n.dnsSearch, ⟨hs.2, hrow.search⟩, rfl⟩
  · rw [List.mem_singleton.mp he]
    exact hword _ (plain_toString _)

theorem stanzaKeys_nodup : stanzaKeys.Nodup := by decide

theorem rowBlock_ok {p : NetworkProfiles} (h : NetworkValid p) (m : Metadata) {n : NetworkProfile}
    (hn : n ∈ p.networks) : (rowBlock p m n).Ok where
  name := plain_ifname h n
  method := plain_method n.mode
  values := by
    intro e he
    have hkey := stanzaKeys_free ((stanzaValues_keys p m n).subset (List.mem_map_of_mem he))
    exact ⟨hkey.1, hkey.2, stanzaValues_words h m hn e he⟩
  nodup := stanzaKeys_nodup.sublist (stanzaValues_keys p m n)

theorem parentBlock_ok {p : NetworkProfiles} (h : NetworkValid p) (m : Metadata) :
    (parentBlock p m).Ok := by
  have hmanual : Plain "manual" := ⟨by decide, by decide⟩
  unfold parentBlock
  split
  · rename_i n hn
    exact rowBlock_ok h m (List.mem_of_mem_filter (List.mem_of_getLast? hn))
  · exact ⟨plain_interface h, hmanual, nofun, .nil⟩

theorem parentBlock_name (p : NetworkProfiles) (m : Metadata) :
    (parentBlock p m).name = p.interface := by
  unfold parentBlock
  split
  · rename_i n hn
    have hu := (List.mem_filter.mp (List.mem_of_getLast? hn)).2
    rw [Option.isNone_iff_eq_none] at hu
    simp [rowBlock, ifname, hu]
  · rfl

theorem vlanBlocks_ok {p : NetworkProfiles} (h : NetworkValid p) (m : Metadata) :
    ∀ b ∈ vlanBlocks p m, b.Ok := by
  intro b hb
  obtain ⟨n, hn, rfl⟩ := List.mem_map.mp hb
  exact rowBlock_ok h m (List.mem_of_mem_filter hn)

theorem names_blocks (p : NetworkProfiles) (m : Metadata) :
    names p = (parentBlock p m :: vlanBlocks p m).map Block.name := by
  rw [names, List.map_cons, parentBlock_name, vlanBlocks, List.map_map]
  rfl

theorem settings_parent {p : NetworkProfiles} (h : NetworkValid p) (m : Metadata) :
    settings (parentText p m) = [parentBlock p m].flatMap Block.settings := by
  have hok : ∀ b ∈ [parentBlock p m], b.Ok := by
    simpa using parentBlock_ok h m
  have htext : parentText p m =
      unlines ([parentBlock p m].flatMap fun b => b.lines ++ if false then [""] else []) := by
    have hlines : parentText p m = unlines (parentBlock p m).lines := by
      unfold parentText parentBlock
      cases (p.networks.filter (·.vlanId.isNone)).getLast? <;> rfl
    rw [hlines]
    simp
  rw [htext, settings_blocks hok]

theorem settings_vlans {p : NetworkProfiles} (h : NetworkValid p) (m : Metadata) :
    settings (vlansText p m) = (vlanBlocks p m).flatMap Block.settings := by
  have htext : vlansText p m =
      unlines ((vlanBlocks p m).flatMap fun b => b.lines ++ if true then [""] else []) := by
    simp [vlansText, vlanBlocks, List.flatMap_map, rowLines, rowBlock, Block.lines]
  rw [htext, settings_blocks (vlanBlocks_ok h m)]

theorem names_nodup {p : NetworkProfiles} (h : NetworkValid p) : (names p).Nodup := by
  have hinj : ∀ a b : Nat, ∀ n ∈ p.networks, ∀ n' ∈ p.networks, n.vlanId = some a →
      n'.vlanId = some b → ifname p n = ifname p n' → a = b := by
    intro a b n hn n' hn' ha hb he
    have hbound := ((h.rows n hn).tag a ha).1
    have hbound' := ((h.rows n' hn').tag b hb).1
    simp only [ifname, ha, hb] at he
    have hdigits : toString a = toString b := by simpa using he
    have hread := parseUnsigned_toString hbound.2
    rw [hdigits, parseUnsigned_toString hbound'.2] at hread
    exact (Option.some.inj hread).symm
  rw [names, List.nodup_cons]
  constructor
  · intro hm
    obtain ⟨n, hn, he⟩ := List.mem_map.mp hm
    obtain ⟨tag, htag⟩ := Option.isSome_iff_exists.mp (List.mem_filter.mp hn).2
    simp only [ifname, htag] at he
    have hlength := congrArg String.length he
    simp only [String.length_append] at hlength
    have hdot : (toString ".").length = 1 := rfl
    have hsame : (toString p.interface).length = p.interface.length := rfl
    omega
  · rw [List.nodup_map_iff_inj_on]
    · intro n hn n' hn' he
      obtain ⟨hn, hs⟩ := List.mem_filter.mp hn
      obtain ⟨hn', hs'⟩ := List.mem_filter.mp hn'
      obtain ⟨a, ha⟩ := Option.isSome_iff_exists.mp hs
      obtain ⟨b, hb⟩ := Option.isSome_iff_exists.mp hs'
      have hab := hinj a b n hn n' hn' ha hb he
      exact List.inj_on_of_nodup_map h.tags hn hn' (by rw [ha, hb, hab])
    · exact (List.Nodup.of_map _ h.tags).filter _

/-! ### Written files among others -/

/-- Files with known stanzas, and others in which no name of interest stands. -/
theorem perm_sources (glob : Glob) (good : List String) (files : List (String × List Stanza))
    (texts : List (String × String)) (htexts : (texts.map Prod.fst).Nodup)
    (hfiles : (files.map Prod.fst).Nodup)
    (hread : ∀ f ∈ files, ∃ text, (f.1, text) ∈ texts ∧ own glob (f.1, text) = f.2)
    (hgood : ∀ f ∈ files, ∀ s ∈ f.2, s.name ∈ good)
    (hforeign : ∀ t ∈ texts, t.1 ∉ files.map Prod.fst → ∀ s ∈ own glob t, s.name ∉ good) :
    ((texts.flatMap (own glob)).filter (·.name ∈ good)).Perm (files.flatMap Prod.snd) := by
  induction files generalizing texts with
  | nil =>
    have hnone : (texts.flatMap (own glob)).filter (·.name ∈ good) = [] := by
      rw [List.filter_eq_nil_iff]
      intro s hs
      obtain ⟨t, ht, hs⟩ := List.mem_flatMap.mp hs
      simpa using hforeign t ht (by simp) s hs
    rw [hnone]
    exact .nil
  | cons f rest ih =>
    obtain ⟨path, ss⟩ := f
    rw [List.map_cons, List.nodup_cons] at hfiles
    obtain ⟨text, hmem, hown⟩ := hread (path, ss) (.head _)
    have hperm : texts.Perm ((path, text) :: texts.erase (path, text)) := List.perm_cons_erase hmem
    have hnodup := (hperm.map Prod.fst).nodup_iff.mp htexts
    rw [List.map_cons, List.nodup_cons] at hnodup
    have hkept : ss.filter (·.name ∈ good) = ss :=
      List.filter_eq_self.mpr fun s hs => by simpa using hgood (path, ss) (.head _) s hs
    refine ((hperm.flatMap_right _).filter _).trans ?_
    rw [List.flatMap_cons, List.filter_append, hown, List.flatMap_cons, hkept]
    refine List.Perm.append_left ss (ih _ hnodup.2 hfiles.2 ?_ ?_ ?_)
    · intro g hg
      obtain ⟨other, hother, hown'⟩ := hread g (.tail _ hg)
      have hne : g.1 ≠ path := by
        intro he
        have hin : g.1 ∈ rest.map Prod.fst := List.mem_map_of_mem hg
        exact hfiles.1 (he ▸ hin)
      rcases List.mem_cons.mp (hperm.mem_iff.mp hother) with he | he
      · exact absurd (congrArg Prod.fst he) hne
      · exact ⟨other, he, hown'⟩
    · intro g hg
      exact hgood g (.tail _ hg)
    · intro t ht hnew
      refine hforeign t (List.mem_of_mem_erase ht) ?_
      rw [List.map_cons, List.mem_cons, not_or]
      exact ⟨fun he => hnodup.1 (he ▸ List.mem_map_of_mem ht), hnew⟩

/-- A file the reader gets to by the main file, whose stanzas name none of the interfaces. -/
def Unrelated (host : Host) (p : NetworkProfiles) (t : String × String) : Prop :=
  ∃ ss, readSource host.glob [] t = .ok ss ∧ ∀ s ∈ ss, s.name ∉ names p

/-- The main file includes both files of the profile; no other file has its interfaces. -/
structure Included (host : Host) (p : NetworkProfiles) (texts : List (String × String)) : Prop where
  sources : Ifupdown.sources host = .ok texts
  parent : parentPath p.interface ∈ texts.map Prod.fst
  vlans : vlansPath ∈ texts.map Prod.fst
  foreign : ∀ t ∈ texts, t.1 ≠ parentPath p.interface → t.1 ≠ vlansPath → Unrelated host p t

/-- The stanzas of the profile's interfaces are those of the blocks in its files. -/
theorem stanzas_perm {host : Host} {p : NetworkProfiles} {texts : List (String × String)}
    (hi : Included host p texts) (hglob : Literal host.glob) (files : List (String × List Block))
    (hnodup : (files.map Prod.fst).Nodup)
    (hpaths : ∀ path ∈ [parentPath p.interface, vlansPath], path ∈ files.map Prod.fst)
    (hread : ∀ f ∈ files, f.1 ∈ texts.map Prod.fst ∧ ∃ text,
      host.root.text f.1 = .ok (some text) ∧ settings text = f.2.flatMap Block.settings)
    (hok : ∀ f ∈ files, ∀ b ∈ f.2, b.Ok) (hnames : ∀ f ∈ files, ∀ b ∈ f.2, b.name ∈ names p) :
    ∃ ss, stanzas host = .ok ss ∧ (ss.filter (·.name ∈ names p)).Perm
      (files.flatMap fun f => f.2.map (Block.stanza f.1)) := by
  obtain ⟨htexts, hroot⟩ := sources_inv hi.sources
  -- what a file of ours reads as, by the text the root has for it
  have hfile : ∀ f ∈ files, ∃ text, (f.1, text) ∈ texts ∧
      readSource host.glob [] (f.1, text) = .ok (f.2.map (Block.stanza f.1)) := by
    intro f hf
    obtain ⟨hmem, text, htext, hset⟩ := hread f hf
    obtain ⟨t, ht, he⟩ := List.mem_map.mp hmem
    have hsame : t.2 = text := by
      have h := hroot t ht
      rw [he, htext] at h
      exact (Option.some.inj (Except.ok.inj h)).symm
    refine ⟨text, ?_, readSource_blocks hglob f.1 (hok f hf) hset⟩
    rw [← he, ← hsame]
    exact ht
  have hforeign : ∀ t ∈ texts, t.1 ∉ files.map Prod.fst → Unrelated host p t := by
    intro t ht hnew
    refine hi.foreign t ht ?_ ?_
    · exact fun he => hnew (he ▸ hpaths _ (by simp))
    · exact fun he => hnew (he ▸ hpaths _ (by simp))
  have hall : ∀ t ∈ texts, (readSource host.glob [] t).isOk = true := by
    intro t ht
    by_cases hm : t.1 ∈ files.map Prod.fst
    · obtain ⟨f, hf, he⟩ := List.mem_map.mp hm
      obtain ⟨text, hmem, hread⟩ := hfile f hf
      have hsame : t = (f.1, text) := List.inj_on_of_nodup_map htexts ht hmem he.symm
      exact Outcome.isOk_iff.mpr ⟨_, hsame ▸ hread⟩
    · obtain ⟨ss, hss, -⟩ := hforeign t ht hm
      exact Outcome.isOk_iff.mpr ⟨ss, hss⟩
  refine ⟨texts.flatMap (own host.glob), ?_, ?_⟩
  · rw [stanzas, hi.sources, Outcome.bind_ok, fold_sources htexts hall [] nofun, List.nil_append]
  · have hperm := perm_sources host.glob (names p)
      (files.map fun f => (f.1, f.2.map (Block.stanza f.1))) texts htexts
      (by simpa [Function.comp_def] using hnodup) ?_ ?_ ?_
    · simpa [List.flatMap_map] using hperm
    · intro f hf
      obtain ⟨g, hg, rfl⟩ := List.mem_map.mp hf
      obtain ⟨text, hmem, hread⟩ := hfile g hg
      exact ⟨text, hmem, own_of_ok hread⟩
    · intro f hf s hs
      obtain ⟨g, hg, rfl⟩ := List.mem_map.mp hf
      obtain ⟨b, hb, rfl⟩ := List.mem_map.mp hs
      exact hnames g hg b hb
    · intro t ht hnew
      obtain ⟨ss, hss, hnone⟩ := hforeign t ht (by simpa [Function.comp_def] using hnew)
      rw [own_of_ok hss]
      exact hnone

end NdimonR.Backend.Ifupdown
