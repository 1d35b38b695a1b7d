import ClusterBench.Json.Decoder
import ClusterBench.DataStore
import ClusterBench.Failure

/-!
# Experiment configurations

An experiment runs a sweep of tests on a testbed: backends, servers and clients, one process for
each entry of a list, so that a host that is listed twice runs two. Everything has a default.
-/

namespace ClusterBench

structure JvmConfig where
  flags : String
  /-- Entries behind the directory of the program. -/
  classpath : List String
  mainClass : String

namespace JvmConfig

def server : JvmConfig :=
  ⟨"-ea -Xms12g -Xmx24g -XX:MaxDirectMemorySize=16684m -XX:+UnlockExperimentalVMOptions" ++
    " -XX:+UseZGC", [], "kawkab.fs.Main"⟩

def client : JvmConfig :=
  ⟨"-ea -XX:+UnlockExperimentalVMOptions -XX:+UseZGC", [], "kawkab.fs.testclient.ClientMain"⟩

def classpathArg (jvm : JvmConfig) (directory : String) : String :=
  ":".intercalate (["." , directory, directory ++ "/bin"] ++ jvm.classpath)

end JvmConfig

structure LoadConfig where
  batchSize : Nat
  writeRatio : Nat
  iats : List Binary64

/-- The tests of an experiment: all combinations of the listed parameters. -/
structure SweepConfig where
  testTypes : List String := ["rw"]
  testPrefixes : List String := ["kw48"]
  loads : List LoadConfig := [⟨10000, 100, [1.0]⟩]
  recordSizes : List Nat := [16]
  filesPerClient : List Nat := [1]
  testRuns : List Nat := [1]
  clientsPerMachine : Nat := 10
  testDuration : Nat := 60
  warmup : Nat := 120

/-- Durations are in seconds. -/
structure ExperimentConfig where
  testbed : Testbed := .cluster
  username : String := "kawkab"
  keyFile : Option String := none
  backends : List String := []
  servers : List String := []
  clients : List String := []
  /-- Where the program is on every host. -/
  programDir : String := "kawkab"
  /-- Where the results of the tests are collected. -/
  expDir : String := "kawkab/experiments/results/kawkab"
  /-- Scratch space on every host. -/
  runDir : String := "/tmp/kawkab"
  serverBasePort : Nat := 33433
  clientBasePort : Nat := 43567
  serverJvm : JvmConfig := .server
  clientJvm : JvmConfig := .client
  backendScript : String := "minio/reset.sh"
  sweep : SweepConfig := {}
  serverStartWait : Nat := 25
  clientWaitExtra : Nat := 60
  serverStopWaitLimit : Nat := 5

namespace ExperimentConfig

/-- What a configuration needs before a test can be launched. -/
def validate (config : ExperimentConfig) : Except Failure Unit :=
  if config.testbed.isEc2 && config.keyFile.isNone then .error (.refuse .keyFileNeeded)
  else if config.servers.isEmpty then .error (.refuse .noServers)
  else if config.clients.isEmpty then .error (.refuse .noClients)
  else if config.sweep.clientsPerMachine = 0 then .error (.refuse .noClientsPerMachine)
  else .ok ()

def clientCount (config : ExperimentConfig) : Nat :=
  config.clients.length * config.sweep.clientsPerMachine

/-- The clients of all machines together, if they can be counted. -/
def totalClients (config : ExperimentConfig) : Except Failure Nat := inWord config.clientCount

/-- The host of the server that a client connects to: clients take the servers in turn. -/
def serverFor (config : ExperimentConfig) (client : Nat) : Except Failure String :=
  match config.servers[client % config.servers.length]? with
  | some host => .ok host
  | none => .error .broken

abbrev portBits : Nat := 16

def serverPort (config : ExperimentConfig) (client : Nat) : Except Failure Nat :=
  if config.servers.isEmpty then .error .broken
  else
    let port := config.serverBasePort + client % config.servers.length % 2 ^ portBits
    if port < 2 ^ portBits then .ok port else .error .broken

open Json.Decoder

def decodeJvm : Json.Decoder JvmConfig :=
  record
    [field "flags" .fault text fun x r => { r with flags := x },
     field "classpath" .fault (list text) fun x r => { r with classpath := x },
     field "main_class" .fault text fun x r => { r with mainClass := x }]
    ⟨"", [], ""⟩

def decodeLoad : Json.Decoder LoadConfig :=
  record
    [field "batch_size" .fault word fun x r => { r with batchSize := x },
     field "write_ratio" .fault word fun x r => { r with writeRatio := x },
     field "iats" .fault (list real) fun x r => { r with iats := x }]
    ⟨0, 0, []⟩

def decodeSweep : Json.Decoder SweepConfig :=
  record
    [field "test_types" .default (list text) fun x r => { r with testTypes := x },
     field "test_prefixes" .default (list text) fun x r => { r with testPrefixes := x },
     field "loads" .default (list decodeLoad) fun x r => { r with loads := x },
     field "record_sizes" .default (list word) fun x r => { r with recordSizes := x },
     field "files_per_client" .default (list word) fun x r => { r with filesPerClient := x },
     field "test_runs" .default (list word) fun x r => { r with testRuns := x },
     field "clients_per_machine" .default word fun x r => { r with clientsPerMachine := x },
     field "test_duration_secs" .default word fun x r => { r with testDuration := x },
     field "warmup_secs" .default word fun x r => { r with warmup := x }]
    {}

def decode : Json.Decoder ExperimentConfig :=
  record
    [field "testbed" .default (oneOf Testbed.labels) fun x r => { r with testbed := x },
     field "ssh_username" .default text fun x r => { r with username := x },
     field "key_file" .default (nullable text) fun x r => { r with keyFile := x },
     field "backends" .default (list text) fun x r => { r with backends := x },
     field "servers" .default (list text) fun x r => { r with servers := x },
     field "clients" .default (list text) fun x r => { r with clients := x },
     field "kawkab_dir" .default text fun x r => { r with programDir := x },
     field "exp_dir" .default text fun x r => { r with expDir := x },
     field "run_dir" .default text fun x r => { r with runDir := x },
     field "server_base_port" .default (natural portBits) fun x r => { r with serverBasePort := x },
     field "client_base_port" .default (natural portBits) fun x r => { r with clientBasePort := x },
     field "server_jvm" .default decodeJvm fun x r => { r with serverJvm := x },
     field "client_jvm" .default decodeJvm fun x r => { r with clientJvm := x },
     field "backend_script" .default text fun x r => { r with backendScript := x },
     field "sweep" .default decodeSweep fun x r => { r with sweep := x },
     field "server_start_wait_secs" .default word fun x r => { r with serverStartWait := x },
     field "client_wait_extra_secs" .default word fun x r => { r with clientWaitExtra := x },
     field "server_stop_wait_limit" .default word fun x r => { r with serverStopWaitLimit := x }]
    {}

end ExperimentConfig

end ClusterBench
