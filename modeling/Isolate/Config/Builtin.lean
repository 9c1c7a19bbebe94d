import Isolate.Config.File

/-!
# The built-in configuration

* `Config.exampleText`: a configuration to start from, with comments for its readers;
* `Config.builtin`: what that text sets, used where no configuration is given;
* `Config.loadOrBuiltin`: the configuration of a file if it has one, else the built-in one.
-/

namespace Isolate.Config

/-- A configuration text to start from. -/
def exampleText : String := "# Runbox configuration
#
# Every language profile names the container image to run submissions in,
# the file name the submission is written to inside the container, an
# optional compile step and the run step. Both steps run through /bin/sh
# in the container's working directory (/app).
#
# memory_limit is in bytes (0 or absent falls back to 100 MiB).
# time_limit is in seconds (0 or absent falls back to fallback_time_limit).

# Docker endpoint. Uses DOCKER_HOST / the local socket when absent.
# docker_host = \"unix:///var/run/docker.sock\"

# Per-stream cap on captured stdout/stderr, in bytes
max_output = 10240

# Wall-clock limit used when neither the request nor the profile sets one
fallback_time_limit = 5.0

[pool]
# Pre-started idle containers kept per language (0 disables warm pooling)
size = 3
poll_interval_ms = 100
retry_backoff_ms = 1000

[languages.python]
image = \"python:3.10-slim\"
source_file = \"main.py\"
run_cmd = [\"python\", \"main.py\"]

[languages.go]
image = \"golang:1.21-alpine\"
source_file = \"main.go\"
run_cmd = [\"go\", \"run\", \"main.go\"]
memory_limit = 268435456
time_limit = 10.0

[languages.cpp]
image = \"gcc:latest\"
source_file = \"main.cpp\"
compile_cmd = [\"g++\", \"-O2\", \"-o\", \"solution\", \"main.cpp\"]
run_cmd = [\"./solution\"]
memory_limit = 268435456
time_limit = 10.0

[languages.java]
image = \"openjdk:17-slim\"
source_file = \"Main.java\"
compile_cmd = [\"javac\", \"Main.java\"]
run_cmd = [\"java\", \"Main\"]
memory_limit = 268435456
time_limit = 10.0

[languages.javascript]
image = \"node:20-slim\"
source_file = \"main.js\"
run_cmd = [\"node\", \"main.js\"]
"

/-- The configuration that the example text sets. -/
def builtin : Config := (ofText .toml exampleText).toOption.getD empty

/-- The configuration of a file if there is one and it can be loaded, else the built-in one. -/
def loadOrBuiltin : Option (String × Node) → Config
  | some (path, node) => (ofFile path node).toOption.getD builtin
  | none => builtin

end Isolate.Config
