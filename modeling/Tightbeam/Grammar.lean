import Tightbeam.RouterBuilt

/-!
# The language of the grammar

Which texts name a target, and which target each names, stated by what they are made of and not by how
they are cut apart. The dial cuts a forward's address once more, and comes to the same endpoint.
-/
namespace Tightbeam

open Checked Texts

/-- The targets by what an address without its `+lossy` is made of. A port is any text `u16::from_str`
takes, and standard input is refused while it is a terminal. -/
inductive NamesTarget (host : Host) : String → Bool → Target → Prop where
  | tcp (name port : String) (hname : name ≠ "") (hport : (parseUnsigned 65535 port).isSome) :
    NamesTarget host ("tcp:" ++ name ++ ":" ++ port) false
      (.Handler (.forward ("tcp:" ++ name ++ ":" ++ port)))
  | unix (path : String) (hpath : path ≠ "") :
    NamesTarget host ("unix:" ++ path) false (.Handler (.forward ("unix:" ++ path)))
  | file (path : String) (hpath : path ≠ "") :
    NamesTarget host ("file:" ++ path) false (.RawStream (.Path path .File))
  | fifo (path : String) (hpath : path ≠ "") :
    NamesTarget host ("fifo:" ++ path) false (.RawStream (.Path path .Fifo))
  | fifoLossy (path : String) (hpath : path ≠ "") :
    NamesTarget host ("fifo:" ++ path) true
      (.RawStream (.Lossy (some path) (.Path (host.absolute path))))
  | stdin (hpiped : host.stdinIsATty = false) : NamesTarget host "stdin:" false (.RawStream .Stdin)
  | stdinLossy (hpiped : host.stdinIsATty = false) :
    NamesTarget host "stdin:" true (.RawStream (.Lossy none .Stdin))
  | echo : NamesTarget host "echo:" false (.Handler .echo)

/-- An address and what is left of it once one trailing `+lossy` is removed. -/
inductive Stripped : String → String → Bool → Prop where
  | lossy (base : String) : Stripped (base ++ "+lossy") base true
  | plain (addr : String) (hplain : ∀ base, addr ≠ base ++ "+lossy") : Stripped addr addr false

/-- The address names this target. -/
def AddrNames (host : Host) (addr : String) (target : Target) : Prop :=
  ∃ base lossy, Stripped addr base lossy ∧ NamesTarget host base lossy target

theorem stripLossy_stripped (addr : String) : Stripped addr (stripLossy addr).1 (stripLossy addr).2 := by
  unfold stripLossy
  cases hsuffix : stripSuffix addr "+lossy" with
  | some base =>
    rw [stripSuffix_some.mp hsuffix]
    exact .lossy base
  | none =>
    apply Stripped.plain
    intro base hbase
    rw [stripSuffix_some.mpr hbase] at hsuffix
    cases hsuffix

theorem Stripped.unique {addr base : String} {lossy : Bool} (h : Stripped addr base lossy) :
    stripLossy addr = (base, lossy) := by
  unfold stripLossy
  cases h with
  | lossy base => rw [stripSuffix_some.mpr rfl]
  | plain _ hplain =>
    cases hsuffix : stripSuffix addr "+lossy" with
    | some front => exact absurd (stripSuffix_some.mp hsuffix) (hplain front)
    | none => rfl

/-- A scheme that has no colon of its own is what the first colon cuts off. -/
theorem splitOnce_scheme (scheme rest : String) (h : ':' ∉ scheme.toList) :
    splitOnce (scheme ++ ":" ++ rest) ':' = some (scheme, rest) :=
  splitOnce_some.mpr ⟨rfl, h⟩

theorem splitOnce_colon {addr scheme rest : String} (h : splitOnce addr ':' = some (scheme, rest)) :
    addr = scheme ++ ":" ++ rest := (splitOnce_some.mp h).1

theorem port_colon {port : String} (h : (parseUnsigned 65535 port).isSome) : ':' ∉ port.toList := by
  obtain ⟨n, hn⟩ := Option.isSome_iff_exists.mp h
  intro hmem
  rcases parseUnsigned_chars hn ':' hmem with hplus | hdigit
  · cases hplus
  · exact absurd hdigit (by decide)

/-- What a local dial connects to. -/
inductive LocalEndpoint where
  | tcp (hostPort : String)
  | unix (path : String)
  deriving DecidableEq, Repr

/-- The addresses of the two local stream endpoints. -/
inductive IsEndpoint : String → LocalEndpoint → Prop where
  | tcp (name port : String) (hname : name ≠ "") (hport : (parseUnsigned 65535 port).isSome) :
    IsEndpoint ("tcp:" ++ name ++ ":" ++ port) (.tcp (name ++ ":" ++ port))
  | unix (path : String) (hpath : path ≠ "") : IsEndpoint ("unix:" ++ path) (.unix path)

theorem splitOnce_tcp (name port : String) :
    splitOnce ("tcp:" ++ name ++ ":" ++ port) ':' = some ("tcp", name ++ ":" ++ port) := by
  have haddr : "tcp:" ++ name ++ ":" ++ port = "tcp" ++ ":" ++ (name ++ ":" ++ port) := by
    simp only [String.append_assoc]
    rfl
  rw [haddr]
  exact splitOnce_scheme "tcp" _ (by decide)

theorem isEndpoint_iff (addr : String) :
    isEndpoint addr = true ↔ ∃ endpoint, IsEndpoint addr endpoint := by
  constructor
  · intro h
    unfold isEndpoint at h
    split at h
    · rename_i rest hscheme
      split at h
      · rename_i name port hport
        simp only [decide_eq_true_eq] at h
        have haddr : addr = "tcp:" ++ name ++ ":" ++ port := by
          rw [splitOnce_colon hscheme, (rsplitOnce_some.mp hport).1, String.append_assoc, String.append_assoc,
            String.append_assoc, String.append_assoc]
          rfl
        rw [haddr]
        exact ⟨_, .tcp name port h.1 h.2⟩
      · cases h
    · rename_i path hscheme
      simp only [decide_eq_true_eq] at h
      rw [splitOnce_colon hscheme]
      exact ⟨_, .unix path h⟩
    · cases h
  · intro h
    obtain ⟨endpoint, h⟩ := h
    cases h with
    | tcp name port hname hport =>
      have hlast : rsplitOnce (name ++ ":" ++ port) ':' = some (name, port) :=
        rsplitOnce_some.mpr ⟨rfl, port_colon hport⟩
      simp [isEndpoint, splitOnce_tcp, hlast, hname, hport]
    | unix path hpath =>
      have hscheme : splitOnce ("unix:" ++ path) ':' = some ("unix", path) :=
        splitOnce_scheme "unix" path (by decide)
      simp [isEndpoint, hscheme, hpath]

theorem validateForward_ok (addr : String) :
    validateForward addr = .ok () ↔ ∃ endpoint, IsEndpoint addr endpoint := by
  rw [← isEndpoint_iff]
  unfold validateForward
  split <;> simp_all

theorem NamesTarget.of_endpoint {host : Host} {addr : String} {endpoint : LocalEndpoint}
    (h : IsEndpoint addr endpoint) :
    NamesTarget host addr false (.Handler (.forward addr)) := by
  cases h with
  | tcp name port hname hport => exact .tcp name port hname hport
  | unix path hpath => exact .unix path hpath

theorem noArgument_ok {scheme rest entry : String} : noArgument scheme rest entry = .ok () ↔ rest = "" := by
  unfold noArgument
  split <;> simp_all

theorem path_ok {path entry scheme : String} {kind : Kind} {stream : RawStream} :
    RawStream.path path kind entry scheme = .ok stream ↔ path ≠ "" ∧ stream = .Path path kind := by
  unfold RawStream.path
  by_cases hpath : path = ""
  · simp [hpath]
  · rw [if_neg hpath, Except.ok.injEq]
    exact ⟨fun h => ⟨hpath, h.symm⟩, fun h => h.2.symm⟩

theorem fifo_ok {host : Host} {path entry : String} {lossy : Bool} {stream : RawStream} :
    RawStream.fifo host path entry lossy = .ok stream ↔ path ≠ "" ∧
      stream = if lossy then .Lossy (some path) (.Path (host.absolute path)) else .Path path .Fifo := by
  unfold RawStream.fifo
  by_cases hpath : path = ""
  · simp [hpath]
  · rw [if_neg hpath]
    cases lossy with
    | false => exact path_ok
    | true =>
      simp only [if_true, Except.ok.injEq]
      exact ⟨fun h => ⟨hpath, h.symm⟩, fun h => h.2.symm⟩

theorem stdin_ok {host : Host} {lossy : Bool} {stream : RawStream} :
    RawStream.stdin host lossy = .ok stream ↔ host.stdinIsATty = false ∧
      stream = if lossy then .Lossy none .Stdin else .Stdin := by
  unfold RawStream.stdin
  cases host.stdinIsATty with
  | true => simp
  | false =>
    simp only [Bool.false_eq_true, if_false, Except.ok.injEq, true_and]
    exact eq_comm

theorem parseTarget_names {host : Host} {addr entry : String} {target : Target}
    (h : parseTarget host addr entry = .ok target) : AddrNames host addr target := by
  have hstripped := stripLossy_stripped addr
  unfold parseTarget at h
  generalize stripLossy addr = halves at h hstripped
  obtain ⟨base, lossy⟩ := halves
  refine ⟨base, lossy, hstripped, ?_⟩
  simp only at h
  cases hscheme : splitOnce base ':' with
  | none => simp [hscheme] at h
  | some parts =>
    obtain ⟨scheme, rest⟩ := parts
    have hbase : base = scheme ++ ":" ++ rest := splitOnce_colon hscheme
    rw [hscheme] at h
    simp only at h
    split at h
    · cases h
    · rename_i hlossy
      have hplain : ¬ (scheme = "stdin" ∨ scheme = "fifo") → lossy = false := by
        intro hscheme
        cases lossy with
        | false => rfl
        | true => exact absurd ⟨rfl, hscheme⟩ hlossy
      split_ifs at h with hforward hfile hfifo hstdin hecho
      · obtain ⟨_, hvalid, htarget⟩ := bind_ok.1 h
        cases htarget
        rw [hplain (by rcases hforward with rfl | rfl <;> decide)]
        obtain ⟨endpoint, hendpoint⟩ := (validateForward_ok base).mp hvalid
        exact .of_endpoint hendpoint
      · obtain ⟨stream, hstream, htarget⟩ := bind_ok.1 h
        cases htarget
        obtain ⟨hpath, rfl⟩ := path_ok.mp hstream
        rw [hplain (by rw [hfile]; decide), hbase, hfile]
        exact .file rest hpath
      · obtain ⟨stream, hstream, htarget⟩ := bind_ok.1 h
        cases htarget
        obtain ⟨hpath, rfl⟩ := fifo_ok.mp hstream
        rw [hbase, hfifo]
        cases lossy with
        | false => exact .fifo rest hpath
        | true => exact .fifoLossy rest hpath
      · obtain ⟨_, hrest, hmore⟩ := bind_ok.1 h
        obtain ⟨stream, hstream, htarget⟩ := bind_ok.1 hmore
        cases htarget
        obtain ⟨hpiped, rfl⟩ := stdin_ok.mp hstream
        rw [hbase, hstdin, noArgument_ok.mp hrest]
        cases lossy with
        | false => exact .stdin hpiped
        | true => exact .stdinLossy hpiped
      · obtain ⟨_, hrest, htarget⟩ := bind_ok.1 h
        cases htarget
        rw [hplain (by rw [hecho]; decide), hbase, hecho, noArgument_ok.mp hrest]
        exact .echo

theorem names_parseTarget {host : Host} {addr entry : String} {target : Target}
    (h : AddrNames host addr target) : parseTarget host addr entry = .ok target := by
  obtain ⟨base, lossy, hstripped, hnames⟩ := h
  have hunique := hstripped.unique
  unfold parseTarget
  cases hnames with
  | tcp name port hname hport =>
    have hvalid := (validateForward_ok _).mpr ⟨_, .tcp name port hname hport⟩
    simp [hunique, splitOnce_tcp, hvalid, bind, Except.bind, pure, Except.pure]
  | unix path hpath =>
    have hscheme : splitOnce ("unix:" ++ path) ':' = some ("unix", path) :=
      splitOnce_scheme "unix" path (by decide)
    have hvalid := (validateForward_ok _).mpr ⟨_, .unix path hpath⟩
    simp [hunique, hscheme, hvalid, bind, Except.bind, pure, Except.pure]
  | file path hpath =>
    have hscheme : splitOnce ("file:" ++ path) ':' = some ("file", path) :=
      splitOnce_scheme "file" path (by decide)
    have hstream : RawStream.file path entry = .ok (.Path path .File) := path_ok.mpr ⟨hpath, rfl⟩
    simp [hunique, hscheme, hstream, bind, Except.bind, pure, Except.pure]
  | fifo path hpath =>
    have hscheme : splitOnce ("fifo:" ++ path) ':' = some ("fifo", path) :=
      splitOnce_scheme "fifo" path (by decide)
    have hstream : RawStream.fifo host path entry false = .ok (.Path path .Fifo) :=
      fifo_ok.mpr ⟨hpath, rfl⟩
    simp [hunique, hscheme, hstream, bind, Except.bind, pure, Except.pure]
  | fifoLossy path hpath =>
    have hscheme : splitOnce ("fifo:" ++ path) ':' = some ("fifo", path) :=
      splitOnce_scheme "fifo" path (by decide)
    have hstream : RawStream.fifo host path entry true =
        .ok (.Lossy (some path) (.Path (host.absolute path))) := fifo_ok.mpr ⟨hpath, rfl⟩
    simp [hunique, hscheme, hstream, bind, Except.bind, pure, Except.pure]
  | stdin hpiped =>
    have hscheme : splitOnce "stdin:" ':' = some ("stdin", "") := splitOnce_scheme "stdin" "" (by decide)
    have hstream : RawStream.stdin host false = .ok .Stdin := stdin_ok.mpr ⟨hpiped, rfl⟩
    simp [hunique, hscheme, hstream, noArgument, bind, Except.bind, pure, Except.pure]
  | stdinLossy hpiped =>
    have hscheme : splitOnce "stdin:" ':' = some ("stdin", "") := splitOnce_scheme "stdin" "" (by decide)
    have hstream : RawStream.stdin host true = .ok (.Lossy none .Stdin) := stdin_ok.mpr ⟨hpiped, rfl⟩
    simp [hunique, hscheme, hstream, noArgument, bind, Except.bind, pure, Except.pure]
  | echo =>
    have hscheme : splitOnce "echo:" ':' = some ("echo", "") := splitOnce_scheme "echo" "" (by decide)
    simp [hunique, hscheme, noArgument, bind, Except.bind, pure, Except.pure]

/-- The dial of a forward, on unix. An address the grammar never admits is refused by name. -/
def dialAndSplice {ε S : Type} (other : String → ε) (connect : LocalEndpoint → Except ε S)
    (splice : S → Except ε Unit) (addr : String) : Except ε Unit :=
  match splitOnce addr ':' with
  | some ("tcp", hostPort) => do
    let stream ← connect (.tcp hostPort)
    splice stream
  | some ("unix", path) => do
    let stream ← connect (.unix path)
    splice stream
  | _ => .error (other
      s!"`{addr}` is not a local stream endpoint; expected `tcp:<host>:<port>` or `unix:<path>`")

/-- However its connect and its splice end, the dial of this address is theirs at this endpoint. -/
def Dials (addr : String) (endpoint : LocalEndpoint) : Prop :=
  ∀ (ε S : Type) (other : String → ε) (connect : LocalEndpoint → Except ε S) (splice : S → Except ε Unit),
    dialAndSplice other connect splice addr = connect endpoint >>= splice

theorem IsEndpoint.dials {addr : String} {endpoint : LocalEndpoint} (h : IsEndpoint addr endpoint) :
    Dials addr endpoint := by
  intro ε S other connect splice
  unfold dialAndSplice
  cases h with
  | tcp name port hname hport =>
    rw [splitOnce_tcp]
    rfl
  | unix path hpath =>
    have hscheme : splitOnce ("unix:" ++ path) ':' = some ("unix", path) :=
      splitOnce_scheme "unix" path (by decide)
    rw [hscheme]
    rfl

theorem NamesTarget.endpoint {host : Host} {base dialed : String} {lossy : Bool}
    (h : NamesTarget host base lossy (.Handler (.forward dialed))) :
    ∃ endpoint, IsEndpoint dialed endpoint := by
  cases h with
  | tcp name port hname hport => exact ⟨_, .tcp name port hname hport⟩
  | unix path hpath => exact ⟨_, .unix path hpath⟩

variable {D : Deps}

/-- An entry is a name, its first `=`, and an address. -/
def EntryNames (host : Host) (entry : String) (row : D.Service × Target) : Prop :=
  ∃ addr, entry = row.1.val ++ "=" ++ addr ∧ '=' ∉ row.1.val.toList ∧ AddrNames host addr row.2

/-- The row a parsed entry adds to the table. -/
def familyRow (row : D.Service × Target) : String × Route D := (row.1.val, Route.family row.2)

theorem binds_parse {host : Host} {entry : String} {row : String × Route D} :
    Binds host (.parse [entry]) row ↔ ∃ named, EntryNames host entry named ∧ row = familyRow named := by
  constructor
  · intro h
    cases h with
    | parse _ addr name target split ok =>
      obtain ⟨hentry, hname⟩ := splitOnce_some.mp split
      exact ⟨(name, target), ⟨addr, hentry, hname, parseTarget_names ok⟩, rfl⟩
  · intro h
    obtain ⟨⟨name, target⟩, ⟨addr, hentry, hname, haddr⟩, rfl⟩ := h
    exact .parse entry addr name target (splitOnce_some.mpr ⟨hentry, hname⟩) (names_parseTarget haddr)

/-- The rows that entries bind, one by one. -/
theorem binds_entries {host : Host} {entries : List String} {rows : List (String × Route D)} :
    List.Forall₂ (Binds host) (entries.map fun entry => .parse [entry]) rows ↔
      ∃ named, List.Forall₂ (EntryNames host) entries named ∧ rows = named.map familyRow := by
  induction entries generalizing rows with
  | nil =>
    constructor
    · intro h
      cases h
      exact ⟨[], .nil, rfl⟩
    · intro h
      obtain ⟨named, hnamed, rfl⟩ := h
      cases hnamed
      exact .nil
  | cons entry entries ih =>
    constructor
    · intro h
      cases h with
      | cons hfirst hrest =>
        obtain ⟨row, hrow, rfl⟩ := binds_parse.mp hfirst
        obtain ⟨named, hnamed, rfl⟩ := ih.mp hrest
        exact ⟨row :: named, .cons hrow hnamed, rfl⟩
    · intro h
      obtain ⟨named, hnamed, rfl⟩ := h
      cases hnamed with
      | cons hrow hrest =>
        exact .cons (binds_parse.mpr ⟨_, hrow, rfl⟩) (ih.mpr ⟨_, hrest, rfl⟩)

namespace Services

/-- Rows can be added to a table exactly when their names are new to it and to each other. -/
theorem exists_added {rows : List (String × Route D)} {s : Services D} :
    (∃ after, Added rows s after) ↔ (rows.map Prod.fst).Nodup ∧ ∀ row ∈ rows, row.1 ∉ s.routes := by
  induction rows generalizing s with
  | nil => simp [added_nil]
  | cons row rows ih =>
    have hfirst : (∃ after, Added (row :: rows) s after) ↔
        row.1 ∉ s.routes ∧ ∃ after, Added rows ⟨s.routes.insert row.1 row.2⟩ after := by
      constructor
      · intro h
        obtain ⟨after, hadded⟩ := h
        obtain ⟨t, hrow, hrest⟩ := added_cons.mp hadded
        obtain ⟨hnew, rfl⟩ := added_singleton.mp hrow
        exact ⟨hnew, after, hrest⟩
      · intro h
        obtain ⟨hnew, after, hrest⟩ := h
        exact ⟨after, added_cons.mpr ⟨_, added_singleton.mpr ⟨hnew, rfl⟩, hrest⟩⟩
    rw [hfirst, ih, List.map_cons, List.nodup_cons]
    simp only [AList.mem_insert, not_or, List.forall_mem_cons, List.mem_map, not_exists, not_and]
    constructor
    · intro h
      obtain ⟨hnew, hnodup, hrest⟩ := h
      exact ⟨⟨fun other hother hname => (hrest other hother).1 hname, hnodup⟩, hnew,
        fun other hother => (hrest other hother).2⟩
    · intro h
      obtain ⟨⟨hapart, hnodup⟩, hnew, hrest⟩ := h
      exact ⟨hnew, hnodup, fun other hother => ⟨hapart other hother, hrest other hother⟩⟩

theorem get_added {rows : List (String × Route D)} {s after : Services D} (h : Added rows s after)
    {name : String} {route : Route D} :
    after.get name = some route ↔ (name, route) ∈ rows ∨ s.get name = some route := by
  rw [get_eq_some, get_eq_some, h]
  simp

end Services

theorem AddrNames.dials {host : Host} {addr dialed : String}
    (h : AddrNames host addr (.Handler (.forward dialed))) :
    ∃ endpoint, IsEndpoint dialed endpoint ∧ Dials dialed endpoint := by
  obtain ⟨base, lossy, -, hnames⟩ := h
  obtain ⟨endpoint, hendpoint⟩ := hnames.endpoint
  exact ⟨endpoint, hendpoint, hendpoint.dials⟩

theorem Router.forward_ok {r after : Router D} {name : D.Service} {addr : String}
    (h : r.forward name addr = .ok after) :
    (∃ endpoint, IsEndpoint addr endpoint) ∧
      after.services.get name.val = some (Route.family (.Handler (.forward addr))) := by
  obtain ⟨_, hvalid, hbind⟩ := bind_ok.1 h
  have hgrows := (Router.bindGated_grows.1 hbind).2
  refine ⟨(validateForward_ok addr).mp hvalid, ?_⟩
  rw [Services.get_added hgrows.services]
  exact .inl (List.mem_singleton.mpr rfl)

/-- The grammar accepts its language and nothing else: entries parse into a table exactly when each is a
name, an `=` and an address that names a target, no name twice nor one already bound. The table then
gains those names on family routes and keeps the rest. Every forward it binds, and every one the verb
binds, dials the endpoint its address spells. -/
theorem grammar_exact (host : Host) (services : Services D) (entries : List String) :
    ((∃ after, services.extendParse host entries = .ok after) ↔
      ∃ named : List (D.Service × Target), List.Forall₂ (EntryNames host) entries named ∧
        (named.map fun row => row.1.val).Nodup ∧ ∀ row ∈ named, row.1.val ∉ services.routes) ∧
    (∀ after, services.extendParse host entries = .ok after →
      ∃ named : List (D.Service × Target), List.Forall₂ (EntryNames host) entries named ∧
        (∀ name route, after.get name = some route ↔
          (∃ row ∈ named, row.1.val = name ∧ route = Route.family row.2) ∨
            services.get name = some route) ∧
        ∀ row ∈ named, ∀ addr, row.2 = .Handler (.forward addr) →
          ∃ endpoint, IsEndpoint addr endpoint ∧ Dials addr endpoint) ∧
    (∀ addr, validateForward addr = .ok () → ∃ endpoint, IsEndpoint addr endpoint ∧ Dials addr endpoint) ∧
    ∀ (r after : Router D) (name : D.Service) (addr : String), r.forward name addr = .ok after →
      after.services.get name.val = some (Route.family (.Handler (.forward addr))) ∧
        ∃ endpoint, IsEndpoint addr endpoint ∧ Dials addr endpoint := by
  have hnames : ∀ named : List (D.Service × Target),
      (named.map familyRow).map Prod.fst = named.map fun row => row.1.val := by
    intro named
    rw [List.map_map]
    rfl
  refine ⟨?_, ?_, ?_, ?_⟩
  · simp only [Services.extendParse_ok, binds_entries]
    constructor
    · intro h
      obtain ⟨after, rows, ⟨named, hnamed, rfl⟩, hadded⟩ := h
      obtain ⟨hnodup, hnew⟩ := Services.exists_added.mp ⟨after, hadded⟩
      rw [hnames] at hnodup
      exact ⟨named, hnamed, hnodup, fun row hrow => hnew (familyRow row) (List.mem_map_of_mem hrow)⟩
    · intro h
      obtain ⟨named, hnamed, hnodup, hnew⟩ := h
      have hrows : ∀ row ∈ named.map familyRow, row.1 ∉ services.routes := by
        intro row hrow
        obtain ⟨source, hsource, rfl⟩ := List.mem_map.mp hrow
        exact hnew source hsource
      obtain ⟨after, hadded⟩ := Services.exists_added.mpr ⟨by rwa [hnames], hrows⟩
      exact ⟨after, _, ⟨named, hnamed, rfl⟩, hadded⟩
  · intro after hparse
    obtain ⟨rows, hrows, hadded⟩ := Services.extendParse_ok.mp hparse
    obtain ⟨named, hnamed, rfl⟩ := binds_entries.mp hrows
    refine ⟨named, hnamed, ?_, ?_⟩
    · intro name route
      rw [Services.get_added hadded, List.mem_map]
      simp only [familyRow, Prod.mk.injEq, eq_comm]
    · intro row hrow addr htarget
      obtain ⟨entry, -, addr', -, -, haddr⟩ := Checked.forall₂_mem_right hnamed hrow
      rw [htarget] at haddr
      exact haddr.dials
  · intro addr hvalid
    obtain ⟨endpoint, hendpoint⟩ := (validateForward_ok addr).mp hvalid
    exact ⟨endpoint, hendpoint, hendpoint.dials⟩
  · intro r after name addr hforward
    obtain ⟨⟨endpoint, hendpoint⟩, hget⟩ := Router.forward_ok hforward
    exact ⟨hget, endpoint, hendpoint, hendpoint.dials⟩

theorem grammar_exact_two :
    let D := Deps.small (Vector.replicate 32 0)
    ∃ after, (⟨∅⟩ : Services D).extendParse Host.empty ["cam=stdin:+lossy", "web=tcp:localhost:80"] =
      .ok after := by
  intro D
  have hcam : EntryNames Host.empty "cam=stdin:+lossy"
      ((⟨"cam", rfl⟩ : D.Service), .RawStream (.Lossy none .Stdin)) :=
    ⟨"stdin:+lossy", by decide, by decide, "stdin:", true, .lossy "stdin:", .stdinLossy rfl⟩
  have hweb : EntryNames Host.empty "web=tcp:localhost:80"
      ((⟨"web", rfl⟩ : D.Service), .Handler (.forward "tcp:localhost:80")) := by
    refine ⟨"tcp:localhost:80", by decide, by decide, "tcp:localhost:80", false, ?_, ?_⟩
    · apply Stripped.plain
      intro base hbase
      have hsuffix := stripSuffix_some.mpr hbase
      revert hsuffix
      have hnone : stripSuffix "tcp:localhost:80" "+lossy" = none := by decide
      simp [hnone]
    · exact .tcp "localhost" "80" (by decide) (by decide)
  obtain ⟨hparses, -⟩ := grammar_exact Host.empty (⟨∅⟩ : Services D)
    ["cam=stdin:+lossy", "web=tcp:localhost:80"]
  exact hparses.mpr ⟨_, .cons hcam (.cons hweb .nil), by decide, by simp⟩

end Tightbeam
