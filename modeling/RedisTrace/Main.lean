import RedisTrace.Address
import RedisTrace.CaptureSessions

/-!
`main`: from the command line to what stands on the terminal. What the machine
answers (the text of `ip addr`, whether `daemon`, `malloc` and `pcap_open_live`
succeed, whether the two calls for the filter return, and what `pcap_next_ex`
delivers until it fails) is given. Every text ends its line, so the terminal
shows it when it is printed.
-/

namespace RedisTrace

open CircularList Run Machine

section CommandLine

/-- The strings in the buffers of `g_config`. -/
structure Config where
  device : List UInt8
  ip : List UInt8
  deriving DecidableEq, Repr

/-- `sizeof` of the buffers of `CONFIG` and of `apppath`. -/
abbrev sizeofDevice : Nat := 64
abbrev sizeofIp : Nat := 32
abbrev sizeofApppath : Nat := 1024

structure Options where
  config : Config
  deamon : Bool
  deriving DecidableEq, Repr

/-- What is set before the first argument is looked at. -/
def Options.initial : Options := ⟨⟨[], []⟩, true⟩

/-- The loop over `argv[1]` and what follows. Without a value there is only the
NULL behind the last argument to copy. The answer is `none` after `-v`. -/
def mainArgs : List (List UInt8) → Options → Except Fault (Option Options)
  | [], o => .ok (some o)
  | arg :: args, o =>
      if arg = ascii "-v" then .ok none
      else if arg = ascii "-d" then mainArgs args {o with deamon := false}
      else if arg = ascii "-i" then
        match args with
        | [] => .error .badAddress
        | value :: args =>
            if value.length < sizeofDevice then
              mainArgs args {o with config := {o.config with device := value}}
            else .error .overflow
      else if arg = ascii "-a" then
        match args with
        | [] => .error .badAddress
        | value :: args =>
            if value.length < sizeofIp then
              mainArgs args {o with config := {o.config with ip := value}}
            else .error .overflow
      else mainArgs args o

/-- What a command line is made of. -/
inductive Opt where
  | debug
  | device (name : List UInt8)
  | address (ip : List UInt8)
  | other (arg : List UInt8)

namespace Opt

def words : Opt → List (List UInt8)
  | .debug => [ascii "-d"]
  | .device name => [ascii "-i", name]
  | .address ip => [ascii "-a", ip]
  | .other arg => [arg]

/-- The value fits its buffer, and what is no option is none of the others. -/
def Valid : Opt → Prop
  | .debug => True
  | .device name => name.length < sizeofDevice
  | .address ip => ip.length < sizeofIp
  | .other arg => arg ≠ ascii "-v" ∧ arg ≠ ascii "-d" ∧ arg ≠ ascii "-i" ∧ arg ≠ ascii "-a"

end Opt

def Options.set (o : Options) : Opt → Options
  | .debug => {o with deamon := false}
  | .device name => {o with config := {o.config with device := name}}
  | .address ip => {o with config := {o.config with ip := ip}}
  | .other _ => o

/-- The arguments are these options, one after the other, and then the rest. -/
def Reads (args : List (List UInt8)) (opts : List Opt) (rest : List (List UInt8)) : Prop :=
  (∀ opt ∈ opts, opt.Valid) ∧ args = opts.flatMap Opt.words ++ rest

section Arguments

variable {args rest : List (List UInt8)} {opt : Opt} {opts : List Opt} {o o' : Options}

theorem optionNames_ne : ascii "-d" ≠ ascii "-v" ∧ ascii "-i" ≠ ascii "-v" ∧
    ascii "-i" ≠ ascii "-d" ∧ ascii "-a" ≠ ascii "-v" ∧ ascii "-a" ≠ ascii "-d" ∧
    ascii "-a" ≠ ascii "-i" := by
  decide

/-- A valid option is read as it is meant. -/
theorem mainArgs_opt (hvalid : opt.Valid) :
    mainArgs (opt.words ++ args) o = mainArgs args (o.set opt) := by
  obtain ⟨hdv, hiv, hid, hav, had, hai⟩ := optionNames_ne
  cases opt with
  | debug =>
      rw [Opt.words, List.singleton_append, mainArgs.eq_def]
      simp [hdv, Options.set]
  | device name =>
      have hfits : name.length < sizeofDevice := hvalid
      simp [Opt.words, mainArgs, hiv, hid, hfits, Options.set]
  | address ip =>
      have hfits : ip.length < sizeofIp := hvalid
      simp [Opt.words, mainArgs, hav, had, hai, hfits, Options.set]
  | other arg =>
      obtain ⟨hv, hd, hi, ha⟩ := hvalid
      rw [Opt.words, List.singleton_append, mainArgs.eq_def]
      simp [hv, hd, hi, ha, Options.set]

theorem Reads.run (hreads : Reads args opts rest) (o : Options) :
    mainArgs args o = mainArgs rest (opts.foldl Options.set o) := by
  obtain ⟨hvalid, rfl⟩ := hreads
  induction opts generalizing o with
  | nil => rfl
  | cons opt opts ih =>
      rw [List.flatMap_cons, List.append_assoc, mainArgs_opt (hvalid opt (by simp)),
        ih _ (fun opt hopt => hvalid opt (by simp [hopt])), List.foldl_cons]

theorem Reads.nil (args : List (List UInt8)) : Reads args [] args := ⟨by simp, rfl⟩

theorem Reads.cons (hreads : Reads args opts rest) (hvalid : opt.Valid) :
    Reads (opt.words ++ args) (opt :: opts) rest := by
  obtain ⟨hall, rfl⟩ := hreads
  refine ⟨by simpa using ⟨hvalid, hall⟩, ?_⟩
  rw [List.flatMap_cons, List.append_assoc]

/-- What the loop may stop at: the end, `-v`, or an option whose value is
missing or too long. -/
inductive Stops : List (List UInt8) → Except Fault Bool → Prop where
  | finished : Stops [] (.ok true)
  | version (args : List (List UInt8)) : Stops (ascii "-v" :: args) (.ok false)
  | missing {arg : List UInt8} (harg : arg = ascii "-i" ∨ arg = ascii "-a") :
      Stops [arg] (.error .badAddress)
  | longDevice {value : List UInt8} (args : List (List UInt8))
      (hlong : sizeofDevice ≤ value.length) :
      Stops (ascii "-i" :: value :: args) (.error .overflow)
  | longAddress {value : List UInt8} (args : List (List UInt8))
      (hlong : sizeofIp ≤ value.length) :
      Stops (ascii "-a" :: value :: args) (.error .overflow)

/-- How the loop stops there. -/
theorem Stops.run {outcome : Except Fault Bool} (hstops : Stops rest outcome) (o : Options) :
    mainArgs rest o = outcome.map (fun finished => if finished then some o else none) := by
  obtain ⟨hdv, hiv, hid, hav, had, hai⟩ := optionNames_ne
  cases hstops with
  | finished => rfl
  | version args =>
      rw [mainArgs.eq_def]
      simp [Except.map]
  | missing harg =>
      rcases harg with rfl | rfl
      · simp [mainArgs, hiv, hid, Except.map]
      · simp [mainArgs, hav, had, hai, Except.map]
  | longDevice args hlong => simp [mainArgs, hiv, hid, Nat.not_lt.mpr hlong, Except.map]
  | longAddress args hlong => simp [mainArgs, hav, had, hai, Nat.not_lt.mpr hlong, Except.map]

/-- Every command line is a list of valid options up to where the loop stops;
the induction is on its length. -/
theorem exists_reads (args : List (List UInt8)) :
    ∃ opts rest outcome, Reads args opts rest ∧ Stops rest outcome := by
  induction hlength : args.length using Nat.strong_induction_on generalizing args with
  | _ n ih =>
      have hopt : ∀ (opt : Opt) (rest : List (List UInt8)), opt.Valid →
          args = opt.words ++ rest → rest.length < n →
          ∃ opts rest outcome, Reads args opts rest ∧ Stops rest outcome := by
        intro opt rest hvalid hargs hlt
        obtain ⟨opts, rest', outcome, hreads, hstops⟩ := ih rest.length hlt rest rfl
        rw [hargs]
        exact ⟨opt :: opts, rest', outcome, hreads.cons hvalid, hstops⟩
      match args with
      | [] => exact ⟨[], [], _, .nil _, .finished⟩
      | arg :: args =>
          rw [List.length_cons] at hlength
          by_cases hv : arg = ascii "-v"
          · rw [hv]
            exact ⟨[], _, _, .nil _, .version args⟩
          by_cases hd : arg = ascii "-d"
          · exact hopt .debug args trivial (by rw [hd]; rfl) (by omega)
          by_cases hi : arg = ascii "-i"
          · match args with
            | [] => exact ⟨[], _, _, .nil _, .missing (.inl hi)⟩
            | value :: args =>
                rw [List.length_cons] at hlength
                rcases Nat.lt_or_ge value.length sizeofDevice with hfits | hlong
                · exact hopt (.device value) args hfits (by rw [hi]; rfl) (by omega)
                · rw [hi]
                  exact ⟨[], _, _, .nil _, .longDevice args hlong⟩
          by_cases ha : arg = ascii "-a"
          · match args with
            | [] => exact ⟨[], _, _, .nil _, .missing (.inr ha)⟩
            | value :: args =>
                rw [List.length_cons] at hlength
                rcases Nat.lt_or_ge value.length sizeofIp with hfits | hlong
                · exact hopt (.address value) args hfits (by rw [ha]; rfl) (by omega)
                · rw [ha]
                  exact ⟨[], _, _, .nil _, .longAddress args hlong⟩
          · exact hopt (.other arg) args ⟨hv, hd, hi, ha⟩ rfl (by omega)

/-- What the loop makes of any command line. It comes to its end exactly for
lists of valid options, of which the later ones count; it answers `-v` exactly
when one stands behind such a list; and it fails exactly where a value is
missing or too long. -/
theorem mainArgs_iff (args : List (List UInt8)) (o : Options) :
    (∀ o', mainArgs args o = .ok (some o') ↔
      ∃ opts, Reads args opts [] ∧ o' = opts.foldl Options.set o) ∧
    (mainArgs args o = .ok none ↔ ∃ opts rest, Reads args opts (ascii "-v" :: rest)) ∧
    ∀ e, mainArgs args o = .error e ↔
      ∃ opts rest, Reads args opts rest ∧ Stops rest (.error e) := by
  have hrun : ∀ {opts rest outcome}, Reads args opts rest → Stops rest outcome →
      mainArgs args o = outcome.map
        (fun finished => if finished then some (opts.foldl Options.set o) else none) := by
    intro opts rest outcome hreads hstops
    rw [hreads.run, hstops.run]
  obtain ⟨opts, rest, outcome, hreads, hstops⟩ := exists_reads args
  have hargs := hrun hreads hstops
  refine ⟨?_, ?_, ?_⟩
  · intro o'
    constructor
    · intro hok
      rw [hargs] at hok
      cases hstops with
      | finished => exact ⟨opts, hreads, (Option.some.inj (Except.ok.inj hok)).symm⟩
      | version args => cases Except.ok.inj hok
      | missing harg => cases hok
      | longDevice args hlong => cases hok
      | longAddress args hlong => cases hok
    · rintro ⟨opts', hreads', rfl⟩
      exact hrun hreads' .finished
  · constructor
    · intro hok
      rw [hargs] at hok
      cases hstops with
      | finished => cases Except.ok.inj hok
      | version args => exact ⟨opts, args, hreads⟩
      | missing harg => cases hok
      | longDevice args hlong => cases hok
      | longAddress args hlong => cases hok
    · rintro ⟨opts', args', hreads'⟩
      exact hrun hreads' (.version args')
  · intro e
    constructor
    · intro herror
      rw [hargs] at herror
      cases outcome with
      | ok finished => cases herror
      | error e' =>
          obtain rfl := Except.error.inj herror
          exact ⟨opts, rest, hreads, hstops⟩
    · rintro ⟨opts', rest', hreads', hstops'⟩
      exact hrun hreads' hstops'

end Arguments

/-- `strrchr`, as an index. -/
def strrchr (c : UInt8) : List UInt8 → Option Nat
  | [] => none
  | b :: s =>
      match strrchr c s with
      | some i => some (i + 1)
      | none => if b = c then some 0 else none

/-- `GetAppDir` into a buffer of 1024 bytes. -/
def getAppDir (apppath : List UInt8) : Except Fault (List UInt8) :=
  match strrchr 0x2f apppath with
  | some ulLen =>
      if ulLen + 1 < sizeofApppath then .ok (apppath.take (ulLen + 1)) else .error .overflow
  | none => .ok []

end CommandLine

section Program

/-- The arguments, and what the machine does. `filtered` tells whether
`pcap_compile` and `pcap_setfilter` return: they are given a `net` and, when
the filter text is refused, a `filter` that nothing has been stored in. -/
structure Env where
  apppath : List UInt8
  args : List (List UInt8)
  daemonised : Bool
  ipAddr : Option (List UInt8)
  allocated : Bool
  errbuf : Option (List UInt8)
  filtered : Bool
  rounds : List Round

/-- The answer of `main` and what stands on the terminal. -/
structure Outcome where
  ret : Int32
  shown : List UInt8
  deriving DecidableEq, Repr

/-- `main` from the check of the configuration on. -/
def mainRun (e : Env) (config : Config) : Except Fault Outcome :=
  if config.device = [] ∨ config.ip = [] then .ok ⟨0, ascii "get configure error!\n\n"⟩
  else
    let text := ascii "set config device " ++ config.device ++ ascii " ip " ++ config.ip ++
      ascii "\n"
    match checkSelfVip e.ipAddr (config.ip ++ [0]) with
    | none => .error .badAddress
    | some answer =>
        if answer = -1 then .ok ⟨0, text ++ ascii "set ip error\n"⟩
        else if !e.allocated then .error .badAddress
        else
          match e.errbuf with
          | some errbuf => .ok ⟨-1, text ++ errbuf ++ ascii "\n"⟩
          | none =>
              if !e.filtered then .error .badAddress
              else do
                let (outs, _) ← capture (monitoredIp config.ip) e.rounds
                match printed (outs.map Option.join) with
                | none => .error .badAddress
                | some lines => return ⟨0, text ++ lines⟩

/-- Behind `daemon(1,0)` nothing is shown any more. -/
def main (e : Env) : Except Fault Outcome :=
  if e.args = [] then .ok ⟨0, ascii "arg error\n\n"⟩
  else do
    match ← mainArgs e.args .initial with
    | none => return ⟨0, ascii "tcpflow_v0.1 2016-11-30 17:00 64 bit\n"⟩
    | some o =>
        let apppath ← getAppDir e.apppath
        let outcome ← mainRun e o.config
        let shown := if o.deamon && e.daemonised then [] else outcome.shown
        return ⟨outcome.ret, ascii "apppath " ++ apppath ++ ascii "\n" ++ shown⟩

/-- What stands on the terminal before the first packet. -/
def greeting (dir : List UInt8) (config : Config) : List UInt8 :=
  ascii "apppath " ++ dir ++ ascii "\n" ++ ascii "set config device " ++ config.device ++
    ascii " ip " ++ config.ip ++ ascii "\n"

/-- `main` gets as far as the capture loop, and its output can be seen. -/
structure Env.Starts (e : Env) (dir : List UInt8) (config : Config) : Prop where
  args : ∃ deamon, mainArgs e.args .initial = .ok (some ⟨config, deamon⟩) ∧
    (deamon && e.daemonised) = false
  dir : getAppDir e.apppath = .ok dir
  device : config.device ≠ []
  ip : config.ip ≠ [] ∧ 0 ∉ config.ip
  listed : ∃ text, e.ipAddr = some text ∧ 0 ∉ text ∧ text.length < sizeofSzbuf ∧
    StandsInside text config.ip
  allocated : e.allocated = true
  opened : e.errbuf = none
  filtered : e.filtered = true

/-- The text of `ip addr` on a machine with one address. -/
def sampleText : List UInt8 := ascii "2: eth0:\n    inet 10.10.0.102/24 brd 10.10.0.255\n"

/-- Started with `-d` on this machine. -/
def sampleEnv (ip : List UInt8) (rounds : List Round) : Env where
  apppath := ascii "./redis_r_trace"
  args := [ascii "-d", ascii "-i", ascii "eth0", ascii "-a", ip]
  daemonised := true
  ipAddr := some sampleText
  allocated := true
  errbuf := none
  filtered := true
  rounds := rounds

section Runs

variable {e : Env} {dir : List UInt8} {config : Config}

/-- An address in the text of `ip addr` passes the check. -/
theorem Env.Starts.checked (hstarts : e.Starts dir config) :
    ∃ answer, checkSelfVip e.ipAddr (config.ip ++ [0]) = some answer ∧ answer ≠ -1 := by
  obtain ⟨text, htext, hnul, hshort, hinside⟩ := hstarts.listed
  have hlength : config.ip.length < 2 ^ 31 := by
    obtain ⟨i, _, hlt⟩ := hinside
    unfold sizeofSzbuf at hshort
    omega
  have hrun := checkSelfVip_short hnul hshort ⟨hstarts.ip.2, List.prefix_rfl⟩ hlength
  rw [htext]
  refine ⟨_, hrun, ?_⟩
  rw [ne_eq, foundAt_eq_neg_iff]
  exact standsInside_iff.mp hinside

/-- From there on `main` prints what the loop reports. -/
theorem Env.Starts.prints (hstarts : e.Starts dir config)
    {outs : List (Option (Option Report))} {c : Capture} {lines : List UInt8}
    (hcapture : capture (monitoredIp config.ip) e.rounds = .ok (outs, c))
    (hlines : printed (outs.map Option.join) = some lines) :
    main e = .ok ⟨0, greeting dir config ++ lines⟩ := by
  obtain ⟨deamon, hargs, hshown⟩ := hstarts.args
  obtain ⟨answer, hcheck, hanswer⟩ := hstarts.checked
  have hsome : e.args ≠ [] := by
    intro hnone
    rw [hnone] at hargs
    cases hargs
    exact hstarts.device rfl
  have hconfig : ¬ (config.device = [] ∨ config.ip = []) := by
    rintro (hdevice | hip)
    · exact hstarts.device hdevice
    · exact hstarts.ip.1 hip
  have hrun : mainRun e config = .ok ⟨0, ascii "set config device " ++ config.device ++
      ascii " ip " ++ config.ip ++ ascii "\n" ++ lines⟩ := by
    simp [mainRun, hconfig, hcheck, hanswer, hstarts.allocated, hstarts.opened,
      hstarts.filtered, hcapture, hlines]
  rw [main, if_neg hsome, hargs, ok_bind]
  dsimp only
  rw [hstarts.dir, ok_bind, hrun, ok_bind, hshown]
  simp [greeting]

/-- What the loop reports it reports in lines. -/
theorem printed_reported (outs : List (Option (Option Report))) :
    printed (outs.map Option.join) =
      ((reported outs).mapM Report.line).map (fun lines => lines.flatMap Line.text) := by
  have hreports : (outs.map Option.join).reduceOption = reported outs := by
    rw [List.reduceOption, List.filterMap_map]
    rfl
  rw [printed, hreports]

/-- Nothing is reported when no packet comes from the monitored address or goes
to it. -/
theorem Env.Starts.silent (hstarts : e.Starts dir config)
    (hother : ∀ f ∈ framesIn e.rounds, ¬ f.Accepted (monitoredIp config.ip)) :
    main e = .ok ⟨0, greeting dir config⟩ := by
  have hunrouted : ∀ f ∈ framesIn e.rounds, f.route (monitoredIp config.ip) = none :=
    fun f hf => if_neg (hother f hf)
  have hquiet : noPacket.Quiet (monitoredIp config.ip) := fun hpasses => by cases hpasses
  obtain ⟨hreadable, hharmless⟩ := settled_run e.rounds noPacket hquiet
    (along_of_mem (fun f hf slots => by simp [Frame.Readable, Frame.Settles, hunrouted f hf]) _)
  obtain ⟨c, hcapture, _⟩ := capture_run (monitoredIp config.ip) e.rounds hreadable
  obtain ⟨_, hreported⟩ := watch_run (monitoredIp config.ip) e.rounds noPacket hharmless
  have hnone : reported (run (watchStep (monitoredIp config.ip)) e.rounds noPacket).2 = [] :=
    hreported.trans (answers_unrouted hunrouted _)
  have hlines := printed_reported (run (watchStep (monitoredIp config.ip)) e.rounds noPacket).2
  rw [hnone] at hlines
  rw [hstarts.prints hcapture hlines]
  simp

/-- A listed string that is no address, `inet` for one, starts a tracer to
which only broadcasts matter: whatever else is captured, nothing is reported. -/
theorem main_no_address (hstarts : e.Starts dir config) (hip : inetAton config.ip = none)
    (hother : ∀ f ∈ framesIn e.rounds,
      [f.rbuf 26, f.rbuf 27, f.rbuf 28, f.rbuf 29] ≠ [255, 255, 255, 255] ∧
        [f.rbuf 30, f.rbuf 31, f.rbuf 32, f.rbuf 33] ≠ [255, 255, 255, 255]) :
    main e = .ok ⟨0, greeting dir config⟩ := by
  apply hstarts.silent
  intro f hf haccepted
  obtain ⟨hsource, hdestination⟩ := hother f hf
  rw [accepted_iff_bytes, monitoredIp_rejected hip] at haccepted
  rcases haccepted.2 with hbytes | hbytes
  · exact hsource hbytes
  · exact hdestination hbytes

theorem sampleEnv_starts (ip : List UInt8) (i : Nat) (rounds : List Round)
    (hlength : ip.length < sizeofIp) (hip : ip ≠ [] ∧ 0 ∉ ip)
    (hoccurs : Occurrences.OccursAt ip sampleText i ∧ i + ip.length < sampleText.length) :
    (sampleEnv ip rounds).Starts (ascii "./") ⟨ascii "eth0", ip⟩ where
  args := by
    have hreads : Reads (sampleEnv ip rounds).args
        [.debug, .device (ascii "eth0"), .address ip] [] := by
      refine ⟨?_, rfl⟩
      have hdevice : (ascii "eth0").length < sizeofDevice := by decide
      simp [Opt.Valid, hdevice, hlength]
    exact ⟨false, hreads.run .initial, rfl⟩
  dir := (by decide : getAppDir (ascii "./redis_r_trace") = .ok (ascii "./"))
  device := (by decide : ascii "eth0" ≠ [])
  ip := hip
  listed := ⟨sampleText, rfl, by decide, by decide, i, hoccurs⟩
  allocated := rfl
  opened := rfl
  filtered := rfl

/-- PING and its reply, under `-a inet`. -/
theorem main_no_address_inet :
    main (sampleEnv (ascii "inet") pingRounds) =
      .ok ⟨0, greeting (ascii "./") ⟨ascii "eth0", ascii "inet"⟩⟩ := by
  apply main_no_address
    (sampleEnv_starts (ascii "inet") 13 pingRounds (by decide) (by decide) (by decide))
    (by decide +kernel)
  intro f hf
  have hframes : framesIn (sampleEnv (ascii "inet") pingRounds).rounds =
      [pingFrame, ackFrame, sampleReply] := framesIn_pingRounds
  rw [hframes] at hf
  simp only [List.mem_cons, List.not_mem_nil, or_false] at hf
  rcases hf with rfl | rfl | rfl
  · decide
  · decide
  · decide

section Sessions

variable {ι : Type} [DecidableEq ι] {ip : UInt32} {clients : Clients ι ip}
  {before after : ι → Option Outstanding} {frames : List Frame} {reports : List (Option Report)}

/-- The names of all open requests can be stored and printed. -/
def Named (outstanding : ι → Option Outstanding) : Prop :=
  ∀ i request, outstanding i = some request → request.name.length ≤ 31 ∧ 0 ∉ request.name

theorem Named.update {outstanding : ι → Option Outstanding} (hnamed : Named outstanding) (i : ι)
    {next : Option Outstanding}
    (hnext : ∀ request, next = some request → request.name.length ≤ 31 ∧ 0 ∉ request.name) :
    Named (Function.update outstanding i next) := by
  intro j request hj
  rcases eq_or_ne j i with rfl | hne
  · rw [Function.update_self] at hj
    exact hnext request hj
  · rw [Function.update_of_ne hne] at hj
    exact hnamed j request hj

/-- The reports of noisy sessions name commands; the induction is on the
trace. -/
theorem Noisy.names (hnoisy : Noisy clients before frames reports after) (hnamed : Named before) :
    ∀ r ∈ reports.reduceOption, ∃ name, Names r.item.cmd name := by
  induction hnoisy with
  | nil before => simp
  | @request before after i f c frames reports free delivers allocated rest ih =>
      apply ih
      apply hnamed.update
      rintro request ⟨⟩
      exact ⟨c.name_le, c.name_nul⟩
  | unstored free delivers failed rest ih => exact ih hnamed
  | @repeated before after i f payload request frames reports sides waiting delivers rest ih =>
      apply ih
      apply hnamed.update
      rintro _ ⟨⟩
      exact hnamed i request waiting
  | @reply before after i f payload request frames reports waiting delivers rest ih =>
      rw [List.reduceOption_cons_of_some, List.forall_mem_cons]
      obtain ⟨hlength, hnul⟩ := hnamed i request waiting
      refine ⟨⟨request.name, hlength, hnul, rfl⟩, ih (hnamed.update i ?_)⟩
      rintro _ ⟨⟩
  | stray free head delivers rest ih => exact ih hnamed
  | refused away rest ih => exact ih hnamed

/-- A stored name is printed as it is. -/
theorem line_of_names {r : Report} {name : List UInt8} (hnames : Names r.item.cmd name) :
    r.line = some ⟨name, r.ulq, r.ula⟩ := by
  obtain ⟨hlength, hnul, hcmd⟩ := hnames
  have hchars : (storedName name).toList = name ++ List.replicate (32 - name.length) 0 := by
    apply List.ext_getElem
    · simp
      omega
    · intro i hi hi'
      rcases Nat.lt_or_ge i name.length with hin | hout
      · simp [storedName, hin]
      · rw [List.getElem_append_right hout]
        simp [storedName, hout]
  have hs : IsString r.item.cmdBytes name := by
    obtain ⟨n, hn⟩ : ∃ n, 32 - name.length = n + 1 := ⟨31 - name.length, by omega⟩
    refine ⟨hnul, List.replicate n 0 ++ r.item.stPortItem.bytes, ?_⟩
    rw [PortVHashItem.cmdBytes, hcmd, hchars, hn, List.replicate_succ]
    simp
  rw [Report.line, printString_run hs, Option.map_some]

/-- From the packets to the terminal: started for the address of its machine,
the program shows for noisy sessions, whatever timeouts come in between, exactly
one line for each request that is answered, with its name and the times of both,
as long as there is memory for commands and nothing that an answering side sends
is an array. -/
theorem main_sessions {a b c d : UInt8} (hstarts : e.Starts dir config)
    (hip : config.ip = dottedQuad a b c d) (clients : Clients ι (addressOf a b c d))
    (hnoisy : Noisy clients noneOutstanding (framesIn e.rounds) reports after)
    (hsides : ∀ i, clients.client i ≠ clients.server i)
    (htame : ∀ f ∈ framesIn e.rounds, f.Accepted (addressOf a b c d) → clients.Tame f) :
    ∃ lines, main e = .ok ⟨0, greeting dir config ++ lines.flatMap Line.text⟩ ∧
      List.Forall₂ (fun r l => Names r.item.cmd l.cmd ∧ l.ulq = r.ulq ∧ l.ula = r.ula)
        reports.reduceOption lines := by
  have hmonitored : monitoredIp config.ip = addressOf a b c d := by
    rw [hip, monitoredIp_dottedQuad]
  obtain ⟨_, hreports, _⟩ := hnoisy.run_tracker (expected_allIdle clients)
  obtain ⟨hreadable, hharmless⟩ := hnoisy.harmless hsides htame
  obtain ⟨_, hcapture, _⟩ := capture_run (addressOf a b c d) e.rounds hreadable
  obtain ⟨_, hreported⟩ := watch_run (addressOf a b c d) e.rounds noPacket hharmless
  have hanswers : answers (tracker (addressOf a b c d)) (framesIn e.rounds) noPacket.slots =
      reports.reduceOption := congrArg List.reduceOption hreports
  have hnames := hnoisy.names (fun _ _ hnone => by cases hnone)
  obtain ⟨lines, hlines, hall⟩ := lines_of_reports
    (fun r l => Names r.item.cmd l.cmd ∧ l.ulq = r.ulq ∧ l.ula = r.ula)
    (fun r hr => by
      obtain ⟨name, hname⟩ := hnames r hr
      exact ⟨_, line_of_names hname, hname, rfl, rfl⟩)
  refine ⟨lines, ?_, hall.imp fun _ _ h => h.2⟩
  have hprinted := printed_reported (run (watchStep (addressOf a b c d)) e.rounds noPacket).2
  rw [hreported, hanswers, hlines, Option.map_some] at hprinted
  rw [← hmonitored] at hcapture hprinted
  exact hstarts.prints hcapture hprinted

theorem main_sessions_ping :
    ∃ lines, main (sampleEnv (dottedQuad 10 10 0 102) pingRounds) =
        .ok ⟨0, greeting (ascii "./") ⟨ascii "eth0", dottedQuad 10 10 0 102⟩ ++
          lines.flatMap Line.text⟩ ∧
      List.Forall₂ (fun r l => Names r.item.cmd l.cmd ∧ l.ulq = r.ulq ∧ l.ula = r.ula)
        [none, none, some (pingClients.report () pingRequest sampleReply)].reduceOption lines :=
  main_sessions
    (sampleEnv_starts (dottedQuad 10 10 0 102) 18 pingRounds (by decide) (by decide) (by decide))
    rfl pingClients pingRounds_noisy pingClients_sides pingRounds_tame

end Sessions

end Runs

end Program

end RedisTrace
