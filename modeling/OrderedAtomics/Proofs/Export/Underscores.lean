import OrderedAtomics.Proofs.Export.CompleteSurface

/-
  What an audit makes of names with one more underscore.  Some object formats put one before every
  name, and the audit takes it off wherever it stands, so a word of a listing is counted as a name
  (`countedAs`) that it may only resemble.  Two words are counted as one just if they are the same
  but for this underscore (`countedAs_eq_iff`), and what an audit compares is the image of the words
  (`shownNames_eq_image`).  So an audit that passes vouches for each name up to an underscore, and
  for the name as it is written exactly if no word has one (`injOn_and_verbatim_iff`).  More cannot
  be had: put before any of the names of a complete surface, the underscore goes unseen
  (`passes_completeListing`).
-/
namespace OrderedAtomics.Export

open OrderedAtomics.Job (Workspace)
open Text (Bytes EndsIn byteLines isBlank)
open Text.Utf8 (decodeLossy)

/-! ## Words and names -/

/-- The words of a listing that begin like a name of the surface, with one more underscore or
without. -/
def shownWords (listing : Bytes) : Set String :=
  {word | ("_sa_".toList <+: word.toList ∨ "__sa_".toList <+: word.toList) ∧
    Shows (byteLines listing) word.toList}

/-- The name that an audit takes a word for. -/
def countedAs (word : String) : String := String.ofList (Audit.normalize word.toList)

/-- A name after one more underscore. -/
def underscored (name : String) : String := "_" ++ name

theorem toList_underscored (name : String) : (underscored name).toList = '_' :: name.toList :=
  String.toList_append

theorem underscored_ne (name : String) : underscored name ≠ name := by
  intro heq
  have hlength := congrArg (fun text => text.toList.length) heq
  simp [toList_underscored] at hlength

section Words

variable {listing : Bytes} {word word' name : String}

theorem not_longer (h : "_sa_".toList <+: name.toList) : ¬"__sa_".toList <+: name.toList := by
  obtain ⟨rest, hrest⟩ := h
  rintro ⟨rest', hrest'⟩
  rw [← hrest] at hrest'
  cases hrest'

theorem countedAs_name (h : "_sa_".toList <+: name.toList) : countedAs name = name := by
  rw [countedAs, (Audit.normalize_eq_iff h).mpr (.inl rfl), String.ofList_toList]

theorem countedAs_underscored (h : "_sa_".toList <+: name.toList) :
    countedAs (underscored name) = name := by
  rw [countedAs, toList_underscored, (Audit.normalize_eq_iff h).mpr (.inr rfl),
    String.ofList_toList]

theorem begins_underscored :
    "__sa_".toList <+: (underscored name).toList ↔ "_sa_".toList <+: name.toList := by
  rw [toList_underscored]
  exact List.prefix_append_right_inj ['_']

/-- A word with the longer beginning is a name after an underscore. -/
theorem exists_underscored (h : "__sa_".toList <+: word.toList) :
    ∃ name, "_sa_".toList <+: name.toList ∧ word = underscored name := by
  obtain ⟨rest, hrest⟩ := h
  have heq : word = underscored (String.ofList ("_sa_".toList ++ rest)) := by
    rw [← String.toList_inj, toList_underscored, String.toList_ofList, ← hrest]
    rfl
  exact ⟨_, begins_underscored.mp (heq ▸ ⟨rest, hrest⟩), heq⟩

/-- A word of a listing is a name, and counted as such, or follows an underscore. -/
theorem word_cases (h : word ∈ shownWords listing) :
    "_sa_".toList <+: (countedAs word).toList ∧
      (word = countedAs word ∨ word = underscored (countedAs word)) := by
  rcases h.1 with hname | hlonger
  · rw [countedAs_name hname]
    exact ⟨hname, .inl rfl⟩
  · obtain ⟨name, hname, rfl⟩ := exists_underscored hlonger
    rw [countedAs_underscored hname]
    exact ⟨hname, .inr rfl⟩

/-- If a word is there with one more underscore as well, it is a name. -/
theorem name_of_underscored (h : word ∈ shownWords listing)
    (h' : underscored word ∈ shownWords listing) : "_sa_".toList <+: word.toList := by
  refine h.1.resolve_right ?_
  rintro ⟨rest, hrest⟩
  -- three underscores begin no name
  rcases h'.1 with ⟨rest', hrest'⟩ | ⟨rest', hrest'⟩
  · rw [toList_underscored, ← hrest] at hrest'
    cases hrest'
  · rw [toList_underscored, ← hrest] at hrest'
    cases hrest'

/-- Two words are counted as one name just if they differ by no more than an underscore. -/
theorem countedAs_eq_iff (h : word ∈ shownWords listing) (h' : word' ∈ shownWords listing) :
    countedAs word = countedAs word' ↔
      word = word' ∨ word = underscored word' ∨ word' = underscored word := by
  constructor
  · intro heq
    obtain ⟨-, hword⟩ := word_cases h
    obtain ⟨-, hword'⟩ := word_cases h'
    rw [heq] at hword
    rcases hword with hword | hword
    · rcases hword' with hword' | hword'
      · exact .inl (hword.trans hword'.symm)
      · exact .inr (.inr (hword ▸ hword'))
    · rcases hword' with hword' | hword'
      · exact .inr (.inl (hword' ▸ hword))
      · exact .inl (hword.trans hword'.symm)
  · rintro (rfl | rfl | rfl)
    · rfl
    · have hname := name_of_underscored h' h
      rw [countedAs_underscored hname, countedAs_name hname]
    · have hname := name_of_underscored h h'
      rw [countedAs_underscored hname, countedAs_name hname]

/-- What an audit compares are the names that the words are counted as. -/
theorem shownNames_eq_image (listing : Bytes) :
    shownNames listing = countedAs '' shownWords listing := by
  ext name
  constructor
  · rintro ⟨hname, hshown | hshown⟩
    · exact ⟨name, ⟨.inl hname, hshown⟩, countedAs_name hname⟩
    · refine ⟨underscored name, ⟨.inr (begins_underscored.mpr hname), ?_⟩,
        countedAs_underscored hname⟩
      rwa [toList_underscored]
  · rintro ⟨word, hword, rfl⟩
    obtain ⟨hname, heq⟩ := word_cases hword
    have hshown := hword.2
    refine ⟨hname, ?_⟩
    rcases heq with heq | heq
    · rw [heq] at hshown
      exact .inl hshown
    · rw [heq, toList_underscored] at hshown
      exact .inr hshown

/-- Without words that have one more underscore, the words are the names. -/
theorem countedAs_eq_self (hnone : ∀ word ∈ shownWords listing, ¬"__sa_".toList <+: word.toList)
    (h : word ∈ shownWords listing) : countedAs word = word :=
  countedAs_name (h.1.resolve_right (hnone word h))

/-- The names are all there as they are written, and no two words are counted as one, exactly if no
word has one more underscore. -/
theorem injOn_and_verbatim_iff :
    (shownNames listing ⊆ shownWords listing ∧ Set.InjOn countedAs (shownWords listing)) ↔
      ∀ word ∈ shownWords listing, ¬"__sa_".toList <+: word.toList := by
  constructor
  · rintro ⟨hverbatim, hinj⟩ word hword hlonger
    obtain ⟨name, hname, rfl⟩ := exists_underscored hlonger
    have hshown : name ∈ shownWords listing := by
      refine hverbatim ?_
      rw [shownNames_eq_image]
      exact ⟨_, hword, countedAs_underscored hname⟩
    refine underscored_ne name (hinj hword hshown ?_)
    rw [countedAs_underscored hname, countedAs_name hname]
  · intro hnone
    constructor
    · rw [shownNames_eq_image]
      rintro _ ⟨word, hword, rfl⟩
      rwa [countedAs_eq_self hnone hword]
    · intro word hword word' hword' heq
      rwa [countedAs_eq_self hnone hword, countedAs_eq_self hnone hword'] at heq

end Words

/-! ## Listings of given words -/

/-- A text without blanks. -/
def Solid (text : String) : Prop := ∀ c ∈ text.toList, isBlank c = false

instance (text : String) : Decidable (Solid text) :=
  List.decidableBAll (fun c => isBlank c = false) text.toList

theorem Solid.append {a b : String} (ha : Solid a) (hb : Solid b) : Solid (a ++ b) := by
  unfold Solid at *
  rw [String.toList_append, List.forall_mem_append]
  exact ⟨ha, hb⟩

theorem Solid.not_break {text : String} (h : Solid text) : '\n' ∉ text.toList := by
  intro hmem
  cases h _ hmem

/-- A line for each of some words. -/
def listingOf (words : List String) : Bytes :=
  Text.toBytes (String.ofList (words.flatMap fun word => ("T " ++ word).toList ++ ['\n']))

theorem decodeLossy_toBytes (cs : List Char) :
    decodeLossy (Text.toBytes (String.ofList cs)) = cs := by
  rw [decodeLossy, Text.toBytes_ofList, Text.Utf8.read_encoded, List.map_map]
  exact List.map_id cs

theorem lines_line {word : String} (h : Solid word) (rest : List Char) :
    Text.lines (("T " ++ word).toList ++ '\n' :: rest) =
      ("T " ++ word).toList :: Text.lines rest := by
  refine Text.lines_append ?_ rest
  rw [String.toList_append, List.mem_append, not_or]
  exact ⟨by decide, h.not_break⟩

theorem lastWord?_line {word : String} (hne : word ≠ "") (h : Solid word) :
    Text.lastWord? ("T " ++ word).toList = some word.toList := by
  have hbefore : ∀ c ∈ "T ".toList.getLast?, isBlank c = true := by
    rintro c ⟨⟩
    rfl
  refine EndsIn.lastWord? ⟨"T ".toList, [], ?_, ?_, h, List.forall_mem_nil _, hbefore⟩
  · rw [String.toList_append, List.append_nil]
  · exact fun hnil => hne (String.toList_eq_nil_iff.mp hnil)

/-- A listing of words shows these words. -/
theorem shows_listingOf {words : List String} (h : ∀ word ∈ words, word ≠ "" ∧ Solid word)
    {word : String} : Shows (byteLines (listingOf words)) word.toList ↔ word ∈ words := by
  have hlast : (Text.lines (words.flatMap fun word =>
      ("T " ++ word).toList ++ ['\n'])).filterMap Text.lastWord? = words.map String.toList := by
    induction words with
    | nil => rfl
    | cons first rest ih =>
      obtain ⟨⟨hne, hsolid⟩, hrest⟩ := List.forall_mem_cons.mp h
      rw [List.flatMap_cons, List.append_assoc, List.singleton_append, lines_line hsolid,
        List.filterMap_cons_some (lastWord?_line hne hsolid), ih hrest, List.map_cons]
  rw [← mem_lastWords, listingOf, decodeLossy_toBytes, hlast,
    List.mem_map_of_injective fun _ _ => String.toList_injective]

/-! ## Complete listings -/

theorem solid_order (o : MemoryOrder) : Solid o.name := by
  cases o <;> decide

theorem solid_type (t : ExportedType) : Solid t.name := by
  cases t with
  | integer t => cases t <;> decide
  | bool | doubleWord => decide

theorem solid_entry (e : Entry) : Solid e.name := by
  have hline : Solid "_" := by decide
  cases e with
  | prepare | dispose => decide
  | load o => exact Solid.append (a := "load_") (by decide) (solid_order _)
  | store o => exact Solid.append (a := "store_") (by decide) (solid_order _)
  | exchange o => exact Solid.append (a := "exchange_") (by decide) (solid_order _)
  | compareExchange k o =>
    have hstrength : Solid ("cmpxchg_" ++ k.name) := by cases k <;> decide
    have hpair : Solid o.name := ((solid_order _).append hline).append (solid_order _)
    exact (hstrength.append hline).append hpair
  | fetch op o =>
    have hop : Solid ("fetch_" ++ op.name) := by cases op <;> decide
    exact (hop.append hline).append (solid_order _)

/-- The name of a function begins like all of them and has no blanks. -/
theorem name_form (f : Symbol) : "_sa_".toList <+: f.name.toList ∧ Solid f.name := by
  have hbegins : ∀ rest : String, "_sa_".toList <+: ("_sa_" ++ rest).toList := by
    intro rest
    rw [String.toList_append]
    exact List.prefix_append _ _
  cases f with
  | storage e t =>
    have hhead : Solid ("_sa_" ++ e.name) := Solid.append (by decide) (solid_entry e)
    refine ⟨?_, (hhead.append (by decide)).append (solid_type t)⟩
    rw [Symbol.name_storage, String.append_assoc, String.append_assoc]
    exact hbegins _
  | threadFence o =>
    refine ⟨?_, Solid.append (a := "_sa_thread_fence_") (by decide) (solid_order _)⟩
    exact hbegins ("thread_fence_" ++ o.name)
  | retain | release => decide

theorem expected_form {doubleWords : Bool} {name : String}
    (h : name ∈ completeSurface doubleWords) : "_sa_".toList <+: name.toList ∧ Solid name := by
  obtain ⟨f, -, rfl⟩ := mem_completeSurface.mp h
  exact name_form f

section Complete

variable (longer : String → Bool) (doubleWords : Bool)

/-- A name, after an underscore if it is among the longer ones. -/
def written (name : String) : String := if longer name then underscored name else name

/-- A listing of all names of a complete library. -/
def completeListing : Bytes := listingOf ((Checklist.expected doubleWords).map (written longer))

variable {longer doubleWords}

theorem solid_written {name : String} (h : Solid name) : Solid (written longer name) := by
  rw [written]
  split
  · exact Solid.append (a := "_") (by decide) h
  · exact h

theorem written_ne_nil {name : String} (h : "_sa_".toList <+: name.toList) :
    written longer name ≠ "" := by
  rw [written]
  split
  · intro hnil
    have hchars := congrArg String.toList hnil
    rw [toList_underscored] at hchars
    cases hchars
  · rintro rfl
    exact absurd h (by decide)

theorem countedAs_written {name : String} (h : "_sa_".toList <+: name.toList) :
    countedAs (written longer name) = name := by
  rw [written]
  split
  · exact countedAs_underscored h
  · exact countedAs_name h

theorem shows_completeListing {word : String} :
    Shows (byteLines (completeListing longer doubleWords)) word.toList ↔
      ∃ name ∈ completeSurface doubleWords, written longer name = word := by
  rw [completeListing, shows_listingOf, List.mem_map]
  · rfl
  · intro word hword
    obtain ⟨name, hname, rfl⟩ := List.mem_map.mp hword
    have hexpected : name ∈ completeSurface doubleWords := hname
    obtain ⟨hbegins, hsolid⟩ := expected_form hexpected
    exact ⟨written_ne_nil hbegins, solid_written hsolid⟩

theorem mem_shownWords_completeListing {word : String} :
    word ∈ shownWords (completeListing longer doubleWords) ↔
      ∃ name ∈ completeSurface doubleWords, written longer name = word := by
  rw [shownWords, Set.mem_ofPred_eq, shows_completeListing, and_iff_right_iff_imp]
  rintro ⟨name, hname, rfl⟩
  obtain ⟨hbegins, -⟩ := expected_form hname
  rw [written]
  split
  · exact .inr (begins_underscored.mpr hbegins)
  · exact .inl hbegins

/-- Whichever names of a complete library stand after an underscore, they are all counted. -/
theorem shownNames_completeListing :
    shownNames (completeListing longer doubleWords) = completeSurface doubleWords := by
  rw [shownNames_eq_image]
  ext name
  constructor
  · rintro ⟨word, hword, rfl⟩
    obtain ⟨name, hname, rfl⟩ := mem_shownWords_completeListing.mp hword
    rwa [countedAs_written (expected_form hname).1]
  · intro hname
    exact ⟨written longer name, mem_shownWords_completeListing.mpr ⟨name, hname, rfl⟩,
      countedAs_written (expected_form hname).1⟩

/-- A name that stands after an underscore does not stand there as it is. -/
theorem not_shows_of_longer {name : String} (h : name ∈ completeSurface doubleWords)
    (hlonger : longer name = true) :
    ¬Shows (byteLines (completeListing longer doubleWords)) name.toList := by
  intro hshown
  obtain ⟨name', hname', heq⟩ := shows_completeListing.mp hshown
  have hcounted : countedAs (written longer name') = name' :=
    countedAs_written (expected_form hname').1
  rw [heq, countedAs_name (expected_form h).1] at hcounted
  rw [← hcounted, written, if_pos hlonger] at heq
  exact underscored_ne name heq

/-- An audit passes whichever names stand after an underscore. -/
theorem passes_completeListing (json : Bool) :
    (Job.run (Job.auditLibrary json)
      (builtWorkspace (completeListing longer doubleWords))).1 = .ok () := by
  have hready : Ready (builtWorkspace (completeListing longer doubleWords))
      (completeListing longer doubleWords) := ⟨⟨_, rfl, rfl⟩, rfl⟩
  have hpasses : (Audit.ofListing (completeListing longer doubleWords)).passes = true := by
    refine (Audit.ofListing_compares _).passes_iff.mpr ?_
    rw [shownNames_completeListing]
    cases doubleWords with
    | false => exact .inl rfl
    | true => exact .inr rfl
  obtain ⟨after, hrun, -⟩ := run_auditLibrary hready json
  rw [hrun, if_pos hpasses]

end Complete

theorem retain_mem_completeSurface (doubleWords : Bool) :
    "_sa_retain_n" ∈ completeSurface doubleWords :=
  mem_completeSurface.mpr ⟨.retain, Symbol.mem_surface.mpr trivial, rfl⟩

/-! ## The job -/

theorem of_buildLibrary {w w' : Workspace} (h : Job.run Job.buildLibrary w = (.ok (), w')) :
    (∃ tool, w.buildTool? = some tool ∧ tool.buildExit = 0) ∧
      w'.listingTool? = w.listingTool? := by
  cases htool : w.buildTool? with
  | none =>
    rw [Job.buildLibrary, Job.run_bind (Job.run_build_none htool _ _)] at h
    cases h
  | some tool =>
    rw [Job.buildLibrary, Job.run_bind (Job.run_build htool _ _)] at h
    have hexit : tool.exit ["build", "--lib", "--release"] = tool.buildExit := rfl
    rw [hexit] at h
    dsimp only at h
    split at h
    · next hzero =>
      cases h
      exact ⟨⟨tool, rfl, hzero⟩, rfl⟩
    · cases h

theorem of_libraryListing {w w' : Workspace} {listing : Bytes}
    (h : Job.run Job.libraryListing w = (.ok listing, w')) :
    w.listingTool? = some ⟨listing, 0⟩ := by
  cases htool : w.listingTool? with
  | none =>
    rw [Job.libraryListing, Job.run_bind (Job.run_listSymbols_none htool _)] at h
    cases h
  | some tool =>
    rw [Job.libraryListing, Job.run_bind (Job.run_listSymbols htool _)] at h
    dsimp only at h
    split at h
    · next hzero =>
      cases h
      rw [← hzero]
    · cases h

/-- The job succeeds only after the tools have. -/
theorem exists_ready {w : Workspace} {json : Bool}
    (h : (Job.run (Job.auditLibrary json) w).1 = .ok ()) : ∃ listing, Ready w listing := by
  obtain ⟨_, w₁, hprint, h⟩ := Job.ok_of_bind (Prod.ext h rfl)
  rw [Job.run_print] at hprint
  cases hprint
  obtain ⟨_, w₂, hbuild, h⟩ := Job.ok_of_bind h
  obtain ⟨hbuilds, hkept⟩ := of_buildLibrary hbuild
  obtain ⟨listing, w₃, hlist, -⟩ := Job.ok_of_bind h
  exact ⟨listing, hbuilds, hkept.symm.trans (of_libraryListing hlist)⟩

/-- **An audit that passes vouches for names up to an underscore.** Where the job succeeds, so has
the listing tool, and the audit that is printed compares the names in its listing.  Every expected
name then ends a line as it is written or after one more underscore.  Two words are counted as one
symbol just if they differ by no more than that underscore, and what is counted are the words so
identified.  Hence all expected names are there as they are written, and no two words are counted as
one, exactly on listings in which no line ends in a word that has the underscore. -/
theorem passing_audit_up_to_underscore {w : Workspace} {json : Bool}
    (h : (Job.run (Job.auditLibrary json) w).1 = .ok ()) :
    ∃ listing, ∃ a : Audit,
      w.listingTool? = some ⟨listing, 0⟩ ∧ a.Compares (shownNames listing) ∧
      (Job.run (Job.auditLibrary json) w).2.out =
        w.out ++ "Building static library...\n" ++ (if json = true then a.toJson else a.toText) ∧
      (∀ name ∈ completeSurface a.doubleWord, Shows (byteLines listing) name.toList ∨
        Shows (byteLines listing) (underscored name).toList) ∧
      (∀ word ∈ shownWords listing, ∀ word' ∈ shownWords listing,
        (countedAs word = countedAs word' ↔
          word = word' ∨ word = underscored word' ∨ word' = underscored word)) ∧
      a.exported = (countedAs '' shownWords listing).ncard ∧
      (((∀ name ∈ completeSurface a.doubleWord, Shows (byteLines listing) name.toList) ∧
          Set.InjOn countedAs (shownWords listing)) ↔
        ∀ word : String, "__sa_".toList <+: word.toList →
          ¬Shows (byteLines listing) word.toList) := by
  obtain ⟨listing, hready⟩ := exists_ready h
  obtain ⟨after, hrun, hout⟩ := run_auditLibrary hready json
  have hcompares := Audit.ofListing_compares listing
  have hpasses : (Audit.ofListing listing).passes = true := by
    rw [hrun] at h
    by_contra hfails
    rw [if_neg hfails] at h
    cases h
  have hsurface := hcompares.passes_iff_eq.mp hpasses
  refine ⟨listing, Audit.ofListing listing, hready.lists, hcompares, ?_, ?_, ?_, ?_, ?_⟩
  · rw [hrun, hout]
  · intro name hname
    rw [← hsurface] at hname
    rw [toList_underscored]
    exact hname.2
  · intro word hword word' hword'
    exact countedAs_eq_iff hword hword'
  · rw [hcompares.exported, shownNames_eq_image]
  · have hverbatim : (∀ name ∈ completeSurface (Audit.ofListing listing).doubleWord,
        Shows (byteLines listing) name.toList) ↔ shownNames listing ⊆ shownWords listing := by
      rw [← hsurface]
      exact ⟨fun hall name hname => ⟨.inl hname.1, hall name hname⟩,
        fun hsub name hname => (hsub hname).2⟩
    have hnone : (∀ word ∈ shownWords listing, ¬"__sa_".toList <+: word.toList) ↔
        ∀ word : String, "__sa_".toList <+: word.toList →
          ¬Shows (byteLines listing) word.toList :=
      ⟨fun hall word hlonger hshown => hall word ⟨.inr hlonger, hshown⟩ hlonger,
        fun hall word hword hlonger => hall word hlonger hword.2⟩
    rw [hverbatim, injOn_and_verbatim_iff, hnone]

theorem passing_audit_up_to_underscore_plain :
    let listing := completeListing (fun _ => false) true
    ∃ a : Audit, a.Compares (shownNames listing) ∧
      (∀ name ∈ completeSurface a.doubleWord, Shows (byteLines listing) name.toList) ∧
      Set.InjOn countedAs (shownWords listing) := by
  intro listing
  have hpasses : (Job.run (Job.auditLibrary true) (builtWorkspace listing)).1 = .ok () :=
    passes_completeListing true
  obtain ⟨listing', a, htool, hcompares, -, -, -, -, hiff⟩ :=
    passing_audit_up_to_underscore hpasses
  obtain rfl : listing = listing' := (Job.ListingTool.mk.inj (Option.some.inj htool)).1
  refine ⟨a, hcompares, hiff.mpr fun word hlonger hshown => ?_⟩
  obtain ⟨name, hname, rfl⟩ := shows_completeListing.mp hshown
  exact not_longer (expected_form hname).1 hlonger

/-- A library without one of the names passes the audit if it has another that resembles it. -/
theorem audit_misses_underscore :
    let listing := completeListing (fun name => name == "_sa_retain_n") true
    (Job.run (Job.auditLibrary false) (builtWorkspace listing)).1 = .ok () ∧
    "_sa_retain_n" ∈ completeSurface (Audit.ofListing listing).doubleWord ∧
    ¬Shows (byteLines listing) "_sa_retain_n".toList :=
  ⟨passes_completeListing false, retain_mem_completeSurface _,
    not_shows_of_longer (retain_mem_completeSurface true) rfl⟩

end OrderedAtomics.Export
